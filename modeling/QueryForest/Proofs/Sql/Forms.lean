import QueryForest.Proofs.Sql.Legible

set_option autoImplicit false

/-!
# The forms of built queries

Only some of all queries are ever built from trees. Their names belong to a table, texts that are
written as they are come from a few words, and predicates compare, or put something behind a column.
The forms are stated for queries whose nested queries satisfy `Q`, so that they need no recursion
through the nesting (`Built` does it, by the depth of the nesting).

For each form there are its symbols here, in the order in which they are written.
-/

namespace QueryForest.Sql

/-! ## Forms -/

/-- What stands behind a column in a predicate. -/
inductive Ending where
  | isNull (negated : Bool)
  | inList (values : List Value) (negated : Bool)
  | inSelect (s : Select) (negated : Bool)

/-- An expression with an ending. -/
def Ending.expr (e : Expr) : Ending → Expr
  | isNull negated => .isNull e negated
  | inList values negated => .inList e (values.map Expr.value) negated
  | inSelect s negated => .inSelect e s negated

/-- An expression with an ending, if there is one. -/
def Expr.ended (e : Expr) : Option Ending → Expr
  | none => e
  | some t => t.expr e

/-- What an aggregate is taken of. -/
inductive Argument where
  | rows
  | column (distinct : Bool) (aliasName column : String)

/-- The call of an aggregate function. -/
def Argument.call (f : AggregateFunction) : Argument → Expr
  | rows => .call f.sql [] true false
  | column distinct a c => .call f.sql [.column a c] false distinct

/-- A call of an aggregate function, rounded to some places or not. -/
inductive Expr.Scaled : Expr → Prop
  | call (f : AggregateFunction) (x : Argument) : Scaled (x.call f)
  | rounded (f : AggregateFunction) (x : Argument) (places : Nat) :
      Scaled (.call "ROUND" [x.call f, .literal (toString places)] false false)

/-- What can be under an alias in a list of results. -/
inductive Expr.Result : Expr → Prop
  | column (aliasName column : String) : Result (.column aliasName column)
  | wildcard (aliasName : String) : Result (.wildcard (some aliasName))
  | scaled {e : Expr} (h : e.Scaled) : Result e

/-- An item of a list of results. -/
def Expr.Shown (e : Expr) : Prop := ∃ shown aliasName, Result shown ∧ e = shown.underAlias aliasName

def Expr.IsColumn (e : Expr) : Prop := ∃ aliasName column, e = .column aliasName column

def Expr.IsValue (e : Expr) : Prop := ∃ v, e = .value v

def OrderItem.Formed (o : OrderItem) : Prop := o.expr.IsColumn ∧ ∃ dir, o.direction = some dir

section Nested

variable (Q : Select → Prop)

inductive Ending.Formed : Ending → Prop
  | isNull (negated : Bool) : Formed (.isNull negated)
  | inList {values : List Value} (some : values ≠ []) (negated : Bool) :
      Formed (.inList values negated)
  | inSelect {s : Select} (hs : Q s) (negated : Bool) : Formed (.inSelect s negated)

/-- How the symbols of an operand begin. -/
inductive Opening where
  | name
  | value
  | function
  | literal
  | query
  | parenthesis
  deriving DecidableEq

/-- An operand, by what its symbols begin with. -/
inductive Expr.Atom : Opening → Expr → Prop
  | tested (aliasName column : String) {o : Option Ending} (h : ∀ t ∈ o, t.Formed Q) :
      Atom .name ((Expr.column aliasName column).ended o)
  | value (v : Value) : Atom .value (.value v)
  | scaled {e : Expr} (h : e.Scaled) : Atom .function e
  | literal (negated : Bool) : Atom .literal (.literal (if negated then "1 = 1" else "1 = 0"))
  | existsSelect {s : Select} (hs : Q s) (negated : Bool) : Atom .query (.existsSelect s negated)

/-- An operand or a predicate. -/
inductive Expr.Formed : Expr → Prop
  | atom {o : Opening} {e : Expr} (h : e.Atom Q o) : Formed e
  | binary {left right : Expr} (op : Operator) (hl : Formed left) (hr : Formed right) :
      Formed (.binary left op right)

inductive TableSource.Formed : TableSource → Prop
  | table (name : String) : Formed (.table none name)
  | select {s : Select} (hs : Q s) : Formed (.select s)

structure FromItem.Formed (item : FromItem) : Prop where
  source : item.source.Formed Q
  aliased : ∃ aliasName, item.aliasName = some aliasName

structure JoinItem.Formed (j : JoinItem) : Prop where
  source : j.source.Formed Q
  aliased : ∃ aliasName, j.aliasName = some aliasName
  on : j.on.Formed Q

structure Select.Formed (s : Select) : Prop where
  nonempty : s.columns ≠ []
  columns : ∀ e ∈ s.columns, e.Shown
  source : ∀ item ∈ s.source, item.Formed Q
  joins : ∀ j ∈ s.joins, j.Formed Q
  condition : ∀ e ∈ s.condition, e.Formed Q
  groups : ∀ e ∈ s.groups, e.IsColumn
  having : ∀ e ∈ s.having, e.Formed Q
  order : ∀ o ∈ s.order, o.Formed
  limit : ∀ e ∈ s.limit, e.IsValue
  offset : ∀ e ∈ s.offset, e.IsValue

end Nested

/-- A query of one of the forms, in which queries nest less than `depth` deep. -/
def Built : (depth : Nat) → Select → Prop
  | 0, _ => False
  | depth + 1, s => s.Formed (Built depth)

/-! ## Symbols -/

def Expr.symbols (e : Expr) : List Symbol := symbolsOf e.tokens

def Select.symbols (s : Select) : List Symbol := symbolsOf s.tokens

def TableSource.symbols (source : TableSource) : List Symbol := symbolsOf source.tokens

def FromItem.symbols (item : FromItem) : List Symbol := symbolsOf item.tokens

def JoinItem.symbols (j : JoinItem) : List Symbol := symbolsOf j.tokens

def OrderItem.symbols (o : OrderItem) : List Symbol := symbolsOf o.tokens

theorem symbolsOf_commaTokens (items : List (List Token)) :
    symbolsOf (commaTokens items) = commas (items.map symbolsOf) := by
  unfold commaTokens
  induction items with
  | nil => rfl
  | cons first rest ih =>
      cases rest with
      | nil => simp [commas]
      | cons second rest =>
          rw [List.intercalate_cons_cons]
          simp_all [commas, Token.symbols]

theorem symbolsOf_exprs (es : List Expr) :
    symbolsOf (commaTokens (exprTokens es)) = commas (es.map Expr.symbols) := by
  rw [symbolsOf_commaTokens, exprTokens_eq, List.map_map]
  rfl

theorem symbolsOf_listTokens (k : String) (items : List (List Token)) :
    symbolsOf (listTokens k items) = listed k (items.map symbolsOf) := by
  unfold listTokens listed
  rw [List.isEmpty_map, ← symbolsOf_commaTokens]
  split <;> rfl

theorem symbolsOf_clauseTokens (k : String) (e : Option Expr) :
    symbolsOf (clauseTokens k e) = optional (fun e => chars k ++ e.symbols) e := by
  cases e <;> rfl

namespace Expr

@[simp] theorem symbols_wildcard (a : String) :
    (wildcard (some a)).symbols = [.name a] ++ (chars "." ++ chars "*") := rfl

@[simp] theorem symbols_value (v : Value) : (value v).symbols = [.value v] := rfl

@[simp] theorem symbols_literal (s : String) : (literal s).symbols = chars s :=
  List.append_nil _

@[simp] theorem symbols_binary (left right : Expr) (op : Operator) :
    (binary left op right).symbols = chars "(" ++ (left.symbols ++
      (chars (" " ++ op.sql ++ " ") ++ (right.symbols ++ chars ")"))) := by
  simp [symbols, tokens, Token.symbols]

theorem symbols_underAlias (e : Expr) (aliasName : Option String) :
    (e.underAlias aliasName).symbols
      = e.symbols ++ optional (fun a => chars " AS " ++ [.name a]) aliasName := by
  cases aliasName with
  | none => exact (List.append_nil _).symm
  | some a => simp [underAlias, symbols, tokens, Token.symbols, optional]

theorem symbols_call (function : String) (args : List Expr) (wildcard distinct : Bool) :
    (call function args wildcard distinct).symbols = chars function ++ (chars "(" ++
      ((if wildcard then chars "*"
        else (if distinct then chars "DISTINCT " else []) ++ commas (args.map symbols)) ++
      chars ")")) := by
  rw [← symbolsOf_exprs]
  cases wildcard <;> cases distinct <;> simp [symbols, tokens, Token.symbols]

@[simp] theorem symbols_existsSelect (s : Select) (negated : Bool) :
    (existsSelect s negated).symbols
      = chars (if negated then "NOT EXISTS (" else "EXISTS (") ++ (s.symbols ++ chars ")") := by
  simp [symbols, Select.symbols, tokens, Token.symbols]

end Expr

/-- The symbols of what an aggregate is taken of. -/
def Argument.symbols : Argument → List Symbol
  | rows => chars "*"
  | column distinct a c =>
    (if distinct then chars "DISTINCT " else []) ++ (Expr.column a c).symbols

theorem Argument.symbols_call (x : Argument) (f : AggregateFunction) :
    (x.call f).symbols = chars (f.sql ++ "(") ++ (x.symbols ++ chars ")") := by
  rw [chars_append, List.append_assoc]
  cases x with
  | rows => exact Expr.symbols_call f.sql [] true false
  | column distinct a c =>
      rw [call, Expr.symbols_call]
      simp [symbols, commas]

theorem Argument.symbols_rounded (x : Argument) (f : AggregateFunction) (places : Nat) :
    (Expr.call "ROUND" [x.call f, .literal (toString places)] false false).symbols
      = chars "ROUND(" ++ ((x.call f).symbols ++
        (chars ", " ++ (chars (toString places) ++ chars ")"))) := by
  have word : chars "ROUND(" = chars "ROUND" ++ chars "(" := chars_append "ROUND" "("
  rw [Expr.symbols_call, word]
  simp [commas]

/-- The word of a test for a missing value. -/
def nullWord (negated : Bool) : String := if negated then " IS NOT NULL" else " IS NULL"

/-- The word of a test for being among others. -/
def inWord (negated : Bool) : String := notWord negated ++ " IN ("

/-- The symbols of an ending. -/
def Ending.symbols : Ending → List Symbol
  | isNull negated => chars (nullWord negated)
  | inList values negated =>
    chars (inWord negated) ++ (commas (values.map fun v => [.value v]) ++ chars ")")
  | inSelect s negated => chars (inWord negated) ++ (s.symbols ++ chars ")")

theorem Expr.symbols_ended (e : Expr) (o : Option Ending) :
    (e.ended o).symbols = e.symbols ++ optional Ending.symbols o := by
  cases o with
  | none => exact (List.append_nil _).symm
  | some t =>
      cases t with
      | isNull negated =>
          simp [ended, Ending.expr, symbols, tokens, Token.symbols, optional, Ending.symbols, nullWord]
      | inList values negated =>
          simp only [ended, Ending.expr, symbols, tokens, symbolsOf_cons, symbolsOf_append,
            symbolsOf_exprs, optional, Ending.symbols, inWord, List.map_map]
          simp [Token.symbols, Function.comp_def]
      | inSelect s negated =>
          simp [ended, Ending.expr, symbols, tokens, Token.symbols, optional, Ending.symbols, inWord,
            Select.symbols]

@[simp] theorem TableSource.symbols_select (s : Select) :
    (select s).symbols = chars "(" ++ (s.symbols ++ chars ")") := by
  simp [symbols, Select.symbols, tokens, Token.symbols]

theorem FromItem.symbols_eq (source : TableSource) (aliasName : String) :
    (FromItem.mk source (some aliasName)).symbols
      = source.symbols ++ (chars " AS " ++ [.name aliasName]) := by
  simp [symbols, TableSource.symbols, tokens, aliasTokens, Token.symbols]

/-- The word of a join, with the spaces around it. -/
def JoinKind.spaced (kind : JoinKind) : String := " " ++ kind.sql ++ " "

/-- The symbols of a join, with the space before it. -/
theorem JoinItem.symbols_eq (kind : JoinKind) (source : TableSource) (aliasName : String) (on : Expr) :
    chars " " ++ (JoinItem.mk kind source (some aliasName) on).symbols
      = chars kind.spaced ++ (source.symbols ++
        (chars " AS " ++ ([.name aliasName] ++ (chars " ON " ++ on.symbols)))) := by
  simp [symbols, JoinKind.spaced, TableSource.symbols, Expr.symbols, tokens, aliasTokens,
    Token.symbols]

/-- The symbols of what stands behind the key of a sort. -/
def NullsPlace.symbols : NullsPlace → List Symbol
  | unspecified => []
  | first => chars " NULLS FIRST"
  | last => chars " NULLS LAST"

theorem OrderItem.symbols_eq (e : Expr) (dir : Direction) (nulls : NullsPlace) (ignoreCase : Bool) :
    (OrderItem.mk e (some dir) nulls ignoreCase).symbols
      = (if ignoreCase then chars "LOWER(" ++ (e.symbols ++ chars ")") else e.symbols) ++
        (chars (" " ++ dir.sql) ++ nulls.symbols) := by
  have word : chars "LOWER(" = chars "LOWER" ++ chars "(" := chars_append "LOWER" "("
  cases ignoreCase <;> cases nulls <;>
    simp [symbols, word, Expr.symbols, tokens, directionTokens, NullsPlace.tokens,
      NullsPlace.symbols, Token.symbols]

/-- The symbols of a query, clause by clause. -/
theorem Select.symbols_eq (s : Select) :
    s.symbols = chars "SELECT " ++ (commas (s.columns.map Expr.symbols) ++
      (optional (fun item => chars " FROM " ++ item.symbols) s.source ++
      (s.joins.flatMap (fun j => chars " " ++ j.symbols) ++
      (optional (fun e => chars " WHERE " ++ e.symbols) s.condition ++
      (listed " GROUP BY " (s.groups.map Expr.symbols) ++
      (optional (fun e => chars " HAVING " ++ e.symbols) s.having ++
      (listed " ORDER BY " (s.order.map OrderItem.symbols) ++
      (optional (fun e => chars " LIMIT " ++ e.symbols) s.limit ++
      optional (fun e => chars " OFFSET " ++ e.symbols) s.offset)))))))) := by
  have source (item : Option FromItem) : symbolsOf (sourceTokens item)
      = optional (fun item => chars " FROM " ++ item.symbols) item := by
    cases item <;> rfl
  have joins (js : List JoinItem) : symbolsOf (joinsTokens js)
      = js.flatMap fun j => chars " " ++ j.symbols := by
    induction js with
    | nil => rfl
    | cons j js ih => simp [joinsTokens, ih, JoinItem.symbols, Token.symbols]
  have groups : (exprTokens s.groups).map symbolsOf = s.groups.map Expr.symbols := by
    rw [exprTokens_eq, List.map_map]
    rfl
  have order : (orderTokens s.order).map symbolsOf = s.order.map OrderItem.symbols := by
    rw [orderTokens_eq, List.map_map]
    rfl
  obtain ⟨columns, item, js, condition, gs, having, os, limit, offset⟩ := s
  simp only [symbols, tokens, symbolsOf_cons, symbolsOf_append, symbolsOf_exprs, source, joins,
    symbolsOf_clauseTokens, symbolsOf_listTokens, groups, order, Token.symbols, List.append_assoc]

end QueryForest.Sql
