import Mathlib.Logic.Relation
import QueryForest.Sql.Syntax

set_option autoImplicit false

/-!
# Scopes

Which tables the columns of a query may belong to. A query begins with a table and joins others to
it, each of which goes by an alias. Its expressions speak of these tables by their aliases; a query
inside an expression has tables of its own.

`Select.WellScoped` says that a query only speaks of its own tables, except where it is correlated
with the query around it, and that the condition of a join speaks of this join and of a table before
it.
-/

namespace QueryForest.Sql

/-! ## Expressions -/

namespace Expr

/-- Whether every column and wildcard of an expression belongs to a table that goes by one of some
aliases. Queries inside the expression are left out. -/
inductive InScope (aliases : List String) : Expr → Prop
  | name {q n : String} (mem : q ∈ aliases) : InScope aliases (.name (some q) n)
  | wildcard {q : String} (mem : q ∈ aliases) : InScope aliases (.wildcard (some q))
  | value {v : Value} : InScope aliases (.value v)
  | literal {text : String} : InScope aliases (.literal text)
  | binary {left right : Expr} {op : Operator} (hleft : InScope aliases left)
      (hright : InScope aliases right) : InScope aliases (.binary left op right)
  | call {function : String} {args : List Expr} {star distinct : Bool}
      (hargs : ∀ e ∈ args, InScope aliases e) : InScope aliases (.call function args star distinct)
  | aliased {e : Expr} {aliasName : String} (he : InScope aliases e) :
      InScope aliases (.aliased e aliasName)
  | inList {e : Expr} {items : List Expr} {negated : Bool} (he : InScope aliases e)
      (hitems : ∀ item ∈ items, InScope aliases item) : InScope aliases (.inList e items negated)
  | isNull {e : Expr} {negated : Bool} (he : InScope aliases e) : InScope aliases (.isNull e negated)
  | inSelect {e : Expr} {s : Select} {negated : Bool} (he : InScope aliases e) :
      InScope aliases (.inSelect e s negated)
  | existsSelect {s : Select} {negated : Bool} : InScope aliases (.existsSelect s negated)

/-- Whether a query stands in an expression, and in no other query there. -/
inductive Nests : Expr → Select → Prop
  | left {left right : Expr} {op : Operator} {s : Select} (h : Nests left s) :
      Nests (.binary left op right) s
  | right {left right : Expr} {op : Operator} {s : Select} (h : Nests right s) :
      Nests (.binary left op right) s
  | call {function : String} {args : List Expr} {star distinct : Bool} {e : Expr} {s : Select}
      (mem : e ∈ args) (h : Nests e s) : Nests (.call function args star distinct) s
  | aliased {e : Expr} {aliasName : String} {s : Select} (h : Nests e s) :
      Nests (.aliased e aliasName) s
  | inList {e : Expr} {items : List Expr} {negated : Bool} {s : Select} (h : Nests e s) :
      Nests (.inList e items negated) s
  | item {e item : Expr} {items : List Expr} {negated : Bool} {s : Select} (mem : item ∈ items)
      (h : Nests item s) : Nests (.inList e items negated) s
  | isNull {e : Expr} {negated : Bool} {s : Select} (h : Nests e s) : Nests (.isNull e negated) s
  | inSelect {e : Expr} {s : Select} {negated : Bool} : Nests (.inSelect e s negated) s
  | beside {e : Expr} {s s' : Select} {negated : Bool} (h : Nests e s') :
      Nests (.inSelect e s negated) s'
  | existsSelect {s : Select} {negated : Bool} : Nests (.existsSelect s negated) s

/-- An expression of the columns of one table, without queries. -/
structure Local (aliasName : String) (e : Expr) : Prop where
  inScope : e.InScope [aliasName]
  plain : ∀ s, ¬ e.Nests s

variable {aliases aliases' : List String} {aliasName : String} {e : Expr} {s : Select}

theorem InScope.mono (h : e.InScope aliases) (sub : ∀ a ∈ aliases, a ∈ aliases') :
    e.InScope aliases' := by
  induction h with
  | name mem => exact .name (sub _ mem)
  | wildcard mem => exact .wildcard (sub _ mem)
  | value => exact .value
  | literal => exact .literal
  | binary _ _ ihl ihr => exact .binary ihl ihr
  | call _ ih => exact .call ih
  | aliased _ ih => exact .aliased ih
  | inList _ _ ih ihs => exact .inList ih ihs
  | isNull _ ih => exact .isNull ih
  | inSelect _ ih => exact .inSelect ih
  | existsSelect => exact .existsSelect

theorem Local.of (h : e.Local aliasName) (mem : aliasName ∈ aliases) : e.InScope aliases :=
  h.inScope.mono fun _ ha => List.mem_singleton.mp ha ▸ mem

namespace Local

theorem column (aliasName column : String) : (Expr.column aliasName column).Local aliasName :=
  ⟨.name List.mem_cons_self, fun _ h => by cases h⟩

theorem wildcard (aliasName : String) : (Expr.wildcard (some aliasName)).Local aliasName :=
  ⟨.wildcard List.mem_cons_self, fun _ h => by cases h⟩

theorem value (aliasName : String) (v : Value) : (Expr.value v).Local aliasName :=
  ⟨.value, fun _ h => by cases h⟩

theorem literal (aliasName text : String) : (Expr.literal text).Local aliasName :=
  ⟨.literal, fun _ h => by cases h⟩

theorem binary {left right : Expr} {op : Operator} (hl : left.Local aliasName)
    (hr : right.Local aliasName) : (Expr.binary left op right).Local aliasName := by
  refine ⟨.binary hl.inScope hr.inScope, fun s h => ?_⟩
  cases h with
  | left h => exact hl.plain s h
  | right h => exact hr.plain s h

theorem call {function : String} {args : List Expr} {star distinct : Bool}
    (hargs : ∀ e ∈ args, e.Local aliasName) :
    (Expr.call function args star distinct).Local aliasName := by
  refine ⟨.call fun e he => (hargs e he).inScope, fun s h => ?_⟩
  cases h with
  | call mem h => exact (hargs _ mem).plain s h

theorem underAlias (h : e.Local aliasName) (outputAlias : Option String) :
    (e.underAlias outputAlias).Local aliasName := by
  cases outputAlias with
  | none => exact h
  | some name =>
      refine ⟨.aliased h.inScope, fun s nests => ?_⟩
      cases nests with
      | aliased nests => exact h.plain s nests

theorem inList {items : List Expr} {negated : Bool} (h : e.Local aliasName)
    (hitems : ∀ item ∈ items, item.Local aliasName) :
    (Expr.inList e items negated).Local aliasName := by
  refine ⟨.inList h.inScope fun item mem => (hitems item mem).inScope, fun s nests => ?_⟩
  cases nests with
  | inList nests => exact h.plain s nests
  | item mem nests => exact (hitems _ mem).plain s nests

theorem isNull {negated : Bool} (h : e.Local aliasName) :
    (Expr.isNull e negated).Local aliasName := by
  refine ⟨.isNull h.inScope, fun s nests => ?_⟩
  cases nests with
  | isNull nests => exact h.plain s nests

end Local

/-! ## Conjunctions -/

/-- What passes from two predicates to their conjunction passes to the conjunction of any number. -/
theorem conjunction_induction {P : Expr → Prop} {es : List Expr}
    (step : ∀ a b, P a → P b → P (.binary a .and b)) (each : ∀ e ∈ es, P e)
    (h : conjunction es = some e) : P e := by
  cases es with
  | nil => exact absurd h (by simp [conjunction])
  | cons first rest =>
      obtain rfl := Option.some.inj h
      refine List.foldlRecOn (motive := P) rest _ (each first List.mem_cons_self) ?_
      intro acc hacc next hnext
      exact step acc next hacc (each next (List.mem_cons_of_mem _ hnext))

/-- A query in a conjunction stands in one of the predicates. -/
theorem conjunction_nests {es : List Expr} (h : conjunction es = some e) (nests : e.Nests s) :
    ∃ e' ∈ es, e'.Nests s := by
  refine conjunction_induction (P := fun e => e.Nests s → ∃ e' ∈ es, e'.Nests s) ?_
    (fun e he nests => ⟨e, he, nests⟩) h nests
  intro a b ha hb nests
  cases nests with
  | left nests => exact ha nests
  | right nests => exact hb nests

end Expr

/-! ## Queries -/

namespace Select

/-- The aliases of the tables of a query, in their order. -/
def aliases (s : Select) : List String :=
  (s.source.bind (·.aliasName)).toList ++ s.joins.filterMap (·.aliasName)

/-- The expressions of a query. -/
def expressions (s : Select) : List Expr :=
  s.columns ++ s.joins.map (·.on) ++ s.condition.toList ++ s.groups ++ s.having.toList ++
    s.order.map (·.expr) ++ s.limit.toList ++ s.offset.toList

/-- What the tables of a query are taken from. -/
def sources (s : Select) : List TableSource := (s.source.map (·.source)).toList ++ s.joins.map (·.source)

/-- Whether a query stands in another one, in an expression or in the place of a table, and in no
other query there. -/
def Nests (s inner : Select) : Prop :=
  (∃ e ∈ s.expressions, e.Nests inner) ∨ TableSource.select inner ∈ s.sources

/-- Whether a query is another one or stands in it at any depth. -/
def Within (inner s : Select) : Prop := Relation.ReflTransGen Nests s inner

/-- Whether a query only speaks of its own tables, except for the columns `outer` of the query
around it. -/
structure WellScoped (outer : List (String × String)) (s : Select) : Prop where
  /-- Every table goes by an alias. -/
  named : s.aliases.length = s.joins.length + 1
  /-- The aliases differ. -/
  distinct : s.aliases.Nodup
  /-- The condition of a join equates columns of tables before it with its own columns. -/
  on : ∀ before j after, s.joins = before ++ j :: after → ∃ own conditions,
    j.aliasName = some own ∧ Expr.conjunction conditions = some j.on ∧
    ∀ c ∈ conditions, ∃ earlier ∈ { s with joins := before }.aliases, ∃ left right,
      c = .binary (.column earlier left) .eq (.column own right)
  columns : ∀ e ∈ s.columns, e.InScope s.aliases
  /-- Every predicate is in scope, or it compares an own column with an outer one. -/
  condition : ∀ e, s.condition = some e → ∃ predicates, Expr.conjunction predicates = some e ∧
    ∀ p ∈ predicates, p.InScope s.aliases ∨ ∃ own ∈ s.aliases, ∃ column op, ∃ there ∈ outer,
      p = .binary (.column own column) op (.column there.1 there.2)
  groups : ∀ e ∈ s.groups, e.InScope s.aliases
  having : ∀ e, s.having = some e → e.InScope s.aliases
  order : ∀ o ∈ s.order, o.expr.InScope s.aliases

end Select

end QueryForest.Sql
