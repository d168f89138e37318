import QueryForest.Proofs.Sql.Tokens

set_option autoImplicit false

/-!
# Queries without their values

`Select.erased` is a query with one and the same value in the place of every value. Two queries that
only differ in their values are the same once these are erased. What is written for an erased query
is what is written for the query itself, except for the values (`tokens_erased`).
-/

namespace QueryForest

/-- The value that stands for all values. -/
def Value.erased (_ : Value) : Value := .uint 0

namespace Sql

def Token.erased : Token → Token
  | value v => .value v.erased
  | other => other

mutual

/-- An expression without its values. -/
def Expr.erased : Expr → Expr
  | .name qualifier name => .name qualifier name
  | .wildcard qualifier => .wildcard qualifier
  | .value v => .value v.erased
  | .literal text => .literal text
  | .binary left op right => .binary left.erased op right.erased
  | .call function args wildcard distinct => .call function (exprsErased args) wildcard distinct
  | .aliased expr aliasName => .aliased expr.erased aliasName
  | .inList expr items negated => .inList expr.erased (exprsErased items) negated
  | .isNull expr negated => .isNull expr.erased negated
  | .inSelect expr select negated => .inSelect expr.erased select.erased negated
  | .existsSelect select negated => .existsSelect select.erased negated

def exprsErased : List Expr → List Expr
  | [] => []
  | e :: es => e.erased :: exprsErased es

def clauseErased : Option Expr → Option Expr
  | none => none
  | some e => some e.erased

/-- A query without its values. -/
def Select.erased : Select → Select
  | { columns, source, joins, condition, groups, having, order, limit, offset } =>
    { columns := exprsErased columns
      source := sourceErased source
      joins := joinsErased joins
      condition := clauseErased condition
      groups := exprsErased groups
      having := clauseErased having
      order := orderErased order
      limit := clauseErased limit
      offset := clauseErased offset }

def TableSource.erased : TableSource → TableSource
  | .table schema name => .table schema name
  | .select s => .select s.erased

def FromItem.erased : FromItem → FromItem
  | { source, aliasName } => { source := source.erased, aliasName }

def sourceErased : Option FromItem → Option FromItem
  | none => none
  | some item => some item.erased

def JoinItem.erased : JoinItem → JoinItem
  | { kind, source, aliasName, on } => { kind, source := source.erased, aliasName, on := on.erased }

def joinsErased : List JoinItem → List JoinItem
  | [] => []
  | j :: js => j.erased :: joinsErased js

def OrderItem.erased : OrderItem → OrderItem
  | { expr, direction, nulls, ignoreCase } => { expr := expr.erased, direction, nulls, ignoreCase }

def orderErased : List OrderItem → List OrderItem
  | [] => []
  | o :: os => o.erased :: orderErased os

end

/-! ## Lists and clauses -/

@[simp] theorem exprsErased_eq (es : List Expr) : exprsErased es = es.map Expr.erased := by
  induction es with
  | nil => rfl
  | cons e es ih => rw [exprsErased, ih, List.map_cons]

@[simp] theorem joinsErased_eq (js : List JoinItem) : joinsErased js = js.map JoinItem.erased := by
  induction js with
  | nil => rfl
  | cons j js ih => rw [joinsErased, ih, List.map_cons]

@[simp] theorem orderErased_eq (os : List OrderItem) : orderErased os = os.map OrderItem.erased := by
  induction os with
  | nil => rfl
  | cons o os ih => rw [orderErased, ih, List.map_cons]

@[simp] theorem clauseErased_eq (e : Option Expr) : clauseErased e = e.map Expr.erased := by
  cases e <;> rfl

@[simp] theorem sourceErased_eq (item : Option FromItem) :
    sourceErased item = item.map FromItem.erased := by
  cases item <;> rfl

@[simp] theorem Expr.erased_value (v : Value) : (Expr.value v).erased = .value (.uint 0) := rfl

@[simp] theorem FromItem.erased_mk (source : TableSource) (aliasName : Option String) :
    FromItem.erased ⟨source, aliasName⟩ = ⟨source.erased, aliasName⟩ := rfl

theorem Select.columns_erased (s : Select) : s.erased.columns = s.columns.map Expr.erased := by
  cases s
  rw [Select.erased, exprsErased_eq]

/-- Values are erased from a conjunction by erasing them from its predicates. -/
theorem Expr.conjunction_erased (es : List Expr) :
    Expr.conjunction (es.map Expr.erased) = (Expr.conjunction es).map Expr.erased := by
  cases es with
  | nil => rfl
  | cons first rest =>
      simp only [List.map_cons, Expr.conjunction, Option.map_some]
      congr 1
      induction rest generalizing first with
      | nil => rfl
      | cons next rest ih =>
          rw [List.map_cons, List.foldl_cons, List.foldl_cons, ← ih]
          rfl

/-! ## Tokens -/

theorem commaTokens_erased (items : List (List Token)) :
    commaTokens (items.map (List.map Token.erased)) = (commaTokens items).map Token.erased := by
  rw [commaTokens, commaTokens, map_intercalate]
  rfl

theorem listTokens_erased (keyword : String) (items : List (List Token)) :
    listTokens keyword (items.map (List.map Token.erased))
      = (listTokens keyword items).map Token.erased := by
  unfold listTokens
  rw [List.isEmpty_map, commaTokens_erased]
  split <;> rfl

theorem qualifiedTokens_erased (qualifier : Option String) (last : Token) :
    qualifiedTokens qualifier last.erased = (qualifiedTokens qualifier last).map Token.erased := by
  cases qualifier <;> rfl

theorem aliasTokens_erased (aliasName : Option String) :
    (aliasTokens aliasName).map Token.erased = aliasTokens aliasName := by
  cases aliasName <;> rfl

theorem directionTokens_erased (direction : Option Direction) :
    (directionTokens direction).map Token.erased = directionTokens direction := by
  cases direction <;> rfl

theorem NullsPlace.tokens_erased (nulls : NullsPlace) :
    nulls.tokens.map Token.erased = nulls.tokens := by
  cases nulls <;> rfl

mutual

/-- **An expression without its values has the tokens of the expression without their values.** So
it is for all parts of a query. -/
theorem Expr.tokens_erased : (e : Expr) → e.erased.tokens = e.tokens.map Token.erased
  | .name qualifier name => qualifiedTokens_erased qualifier (.name name)
  | .wildcard qualifier => qualifiedTokens_erased qualifier (.text "*")
  | .value _ => rfl
  | .literal _ => rfl
  | .binary left op right => by
      simp [Expr.erased, Expr.tokens, left.tokens_erased, right.tokens_erased, Token.erased]
  | .call function args wildcard distinct => by
      simp only [Expr.erased, Expr.tokens, exprTokens_erased args, commaTokens_erased]
      cases wildcard <;> cases distinct <;> simp [Token.erased]
  | .aliased e aliasName => by simp [Expr.erased, Expr.tokens, e.tokens_erased, Token.erased]
  | .inList e items negated => by
      simp only [Expr.erased, Expr.tokens, e.tokens_erased, exprTokens_erased items,
        commaTokens_erased]
      simp [Token.erased]
  | .isNull e negated => by simp [Expr.erased, Expr.tokens, e.tokens_erased, Token.erased]
  | .inSelect e s negated => by
      simp [Expr.erased, Expr.tokens, e.tokens_erased, s.tokens_erased, Token.erased]
  | .existsSelect s negated => by simp [Expr.erased, Expr.tokens, s.tokens_erased, Token.erased]

theorem exprTokens_erased : (es : List Expr) →
    exprTokens (exprsErased es) = (exprTokens es).map (List.map Token.erased)
  | [] => rfl
  | e :: es => by
      simp only [exprsErased, exprTokens, e.tokens_erased, exprTokens_erased es, List.map_cons]

theorem clauseTokens_erased (keyword : String) : (e : Option Expr) →
    clauseTokens keyword (clauseErased e) = (clauseTokens keyword e).map Token.erased
  | none => rfl
  | some e => by simp only [clauseErased, clauseTokens, e.tokens_erased, List.map_cons, Token.erased]

theorem Select.tokens_erased : (s : Select) → s.erased.tokens = s.tokens.map Token.erased
  | { columns, source, joins, condition, groups, having, order, limit, offset } => by
      simp only [Select.erased, Select.tokens, exprTokens_erased columns,
        sourceTokens_erased source, joinsTokens_erased joins, clauseTokens_erased _ condition,
        exprTokens_erased groups, clauseTokens_erased _ having, orderTokens_erased order,
        clauseTokens_erased _ limit, clauseTokens_erased _ offset, commaTokens_erased,
        listTokens_erased, List.map_append, List.map_cons, Token.erased]

theorem TableSource.tokens_erased : (s : TableSource) →
    s.erased.tokens = s.tokens.map Token.erased
  | .table schema name => qualifiedTokens_erased schema (.name name)
  | .select s => by simp [TableSource.erased, TableSource.tokens, s.tokens_erased, Token.erased]

theorem FromItem.tokens_erased : (item : FromItem) →
    item.erased.tokens = item.tokens.map Token.erased
  | { source, aliasName } => by
      simp [FromItem.erased, FromItem.tokens, source.tokens_erased, aliasTokens_erased]

theorem sourceTokens_erased : (item : Option FromItem) →
    sourceTokens (sourceErased item) = (sourceTokens item).map Token.erased
  | none => rfl
  | some item => by
      simp only [sourceErased, sourceTokens, item.tokens_erased, List.map_cons, Token.erased]

theorem JoinItem.tokens_erased : (j : JoinItem) → j.erased.tokens = j.tokens.map Token.erased
  | { kind, source, aliasName, on } => by
      simp [JoinItem.erased, JoinItem.tokens, source.tokens_erased, on.tokens_erased,
        aliasTokens_erased, Token.erased]

theorem joinsTokens_erased : (js : List JoinItem) →
    joinsTokens (joinsErased js) = (joinsTokens js).map Token.erased
  | [] => rfl
  | j :: js => by
      simp only [joinsErased, joinsTokens, j.tokens_erased, joinsTokens_erased js, List.map_append,
        List.map_cons, Token.erased]

theorem OrderItem.tokens_erased : (o : OrderItem) → o.erased.tokens = o.tokens.map Token.erased
  | { expr, direction, nulls, ignoreCase } => by
      cases ignoreCase <;>
        simp [OrderItem.erased, OrderItem.tokens, expr.tokens_erased, directionTokens_erased,
          NullsPlace.tokens_erased, Token.erased]

theorem orderTokens_erased : (os : List OrderItem) →
    orderTokens (orderErased os) = (orderTokens os).map (List.map Token.erased)
  | [] => rfl
  | o :: os => by
      simp only [orderErased, orderTokens, o.tokens_erased, orderTokens_erased os, List.map_cons]

end

end Sql

end QueryForest
