import QueryForest.Proofs.Sql.Forms
import QueryForest.Proofs.Sql.Layout

set_option autoImplicit false

/-!
# The values of a query

The values among the tokens of a query are those of its parts in the order in which they are written
(`Select.values_eq`). Columns, groups and sort keys have none, so that what is left are the values of
the tables, of the predicates and of the conditions on aggregates, the limit and the offset.
-/

namespace QueryForest.Sql

/-! ## Values among tokens -/

@[simp] theorem valuesIn_nil : valuesIn [] = [] := rfl

@[simp] theorem valuesIn_text (s : String) (tokens : List Token) :
    valuesIn (.text s :: tokens) = valuesIn tokens := rfl

@[simp] theorem valuesIn_append (tokens rest : List Token) :
    valuesIn (tokens ++ rest) = valuesIn tokens ++ valuesIn rest :=
  List.filterMap_append

/-- Commas are no values. -/
@[simp] theorem valuesIn_commaTokens (items : List (List Token)) :
    valuesIn (commaTokens items) = items.flatMap valuesIn := by
  unfold commaTokens
  induction items with
  | nil => rfl
  | cons first rest ih =>
      cases rest with
      | nil => simp [List.intercalate]
      | cons second rest =>
          have behind : List.intercalate [Token.text ", "] (first :: second :: rest)
              = first ++ .text ", " :: List.intercalate [.text ", "] (second :: rest) := by
            simp [List.intercalate]
          rw [behind, valuesIn_append, valuesIn_text, ih]
          rfl

@[simp] theorem valuesIn_listTokens (keyword : String) (items : List (List Token)) :
    valuesIn (listTokens keyword items) = items.flatMap valuesIn := by
  unfold listTokens
  cases items with
  | nil => rfl
  | cons first rest =>
      show valuesIn (.text keyword :: commaTokens (first :: rest)) = _
      rw [valuesIn_text, valuesIn_commaTokens]

@[simp] theorem valuesIn_aliasTokens (aliasName : Option String) :
    valuesIn (aliasTokens aliasName) = [] := by
  cases aliasName <;> rfl

@[simp] theorem valuesIn_directionTokens (direction : Option Direction) :
    valuesIn (directionTokens direction) = [] := by
  cases direction <;> rfl

@[simp] theorem valuesIn_nulls (nulls : NullsPlace) : valuesIn nulls.tokens = [] := by
  cases nulls <;> rfl

/-! ## Values of expressions -/

/-- The values in an expression, in the order in which they are written. -/
def Expr.values (e : Expr) : List Value := valuesIn e.tokens

def Select.values (s : Select) : List Value := valuesIn s.tokens

def TableSource.values (source : TableSource) : List Value := valuesIn source.tokens

@[simp] theorem valuesIn_exprTokens (es : List Expr) :
    (exprTokens es).flatMap valuesIn = es.flatMap Expr.values := by
  rw [exprTokens_eq, List.flatMap_map]
  rfl

namespace Expr

@[simp] theorem values_column (aliasName name : String) : (column aliasName name).values = [] := rfl

@[simp] theorem values_value (v : Value) : (value v).values = [v] := rfl

@[simp] theorem values_binary (left : Expr) (op : Operator) (right : Expr) :
    (binary left op right).values = left.values ++ right.values := by
  simp [values, tokens]

@[simp] theorem values_isNull (e : Expr) (negated : Bool) : (isNull e negated).values = e.values := by
  simp [values, tokens]

@[simp] theorem values_inList (e : Expr) (items : List Expr) (negated : Bool) :
    (inList e items negated).values = e.values ++ items.flatMap values := by
  simp [values, tokens]

@[simp] theorem values_inSelect (e : Expr) (s : Select) (negated : Bool) :
    (inSelect e s negated).values = e.values ++ s.values := by
  simp [values, Select.values, tokens]

@[simp] theorem values_existsSelect (s : Select) (negated : Bool) :
    (existsSelect s negated).values = s.values := by
  simp [values, Select.values, tokens]

/-- A conjunction has the values of its predicates one after the other, and no predicates are no
values. -/
theorem values_conjunction (es : List Expr) : (conjunction es).toList.flatMap values = es.flatMap values := by
  cases es with
  | nil => rfl
  | cons e es =>
      have folded : (es.foldl (fun acc next => binary acc .and next) e).values
          = e.values ++ es.flatMap values := by
        induction es generalizing e with
        | nil => simp
        | cons next rest ih =>
            rw [List.foldl_cons, ih, values_binary, List.flatMap_cons, List.append_assoc]
      show (es.foldl (fun acc next => binary acc .and next) e).values ++ [] = _
      rw [List.append_nil, folded, List.flatMap_cons]

theorem values_argument (f : AggregateFunction) (x : Argument) : (x.call f).values = [] := by
  cases x with
  | rows => rfl
  | column distinct a c => cases distinct <;> rfl

theorem Scaled.values {e : Expr} (h : e.Scaled) : e.values = [] := by
  cases h with
  | call f x => exact values_argument f x
  | rounded f x places =>
      have inner : valuesIn (x.call f).tokens = [] := values_argument f x
      simp [Expr.values, tokens, exprTokens_eq, inner]

/-- An item of a list of results has no values. -/
theorem Shown.values {e : Expr} (h : e.Shown) : e.values = [] := by
  obtain ⟨shown, aliasName, result, rfl⟩ := h
  have bare : shown.values = [] := by
    cases result with
    | column => rfl
    | wildcard => rfl
    | scaled scaled => exact scaled.values
  cases aliasName with
  | none => exact bare
  | some a =>
      show valuesIn (shown.tokens ++ [.text " AS ", .name a]) = []
      rw [valuesIn_append]
      exact congrArg (· ++ []) bare

theorem IsColumn.values {e : Expr} (h : e.IsColumn) : e.values = [] := by
  obtain ⟨aliasName, column, rfl⟩ := h
  rfl

end Expr

/-! ## Values of queries -/

@[simp] theorem valuesIn_clauseTokens (keyword : String) (e : Option Expr) :
    valuesIn (clauseTokens keyword e) = e.toList.flatMap Expr.values := by
  cases e with
  | none => rfl
  | some e => simp [clauseTokens, Expr.values]

@[simp] theorem valuesIn_sourceTokens (item : Option FromItem) :
    valuesIn (sourceTokens item) = item.toList.flatMap (·.source.values) := by
  cases item with
  | none => rfl
  | some item =>
      obtain ⟨source, aliasName⟩ := item
      simp [sourceTokens, FromItem.tokens, TableSource.values]

@[simp] theorem valuesIn_joinsTokens (joins : List JoinItem) :
    valuesIn (joinsTokens joins) = joins.flatMap fun j => j.source.values ++ j.on.values := by
  induction joins with
  | nil => rfl
  | cons j joins ih =>
      obtain ⟨kind, source, aliasName, on⟩ := j
      simp [joinsTokens, JoinItem.tokens, TableSource.values, Expr.values, ih]

@[simp] theorem valuesIn_orderTokens (order : List OrderItem) :
    (orderTokens order).flatMap valuesIn = order.flatMap (·.expr.values) := by
  have each : (fun o : OrderItem => valuesIn o.tokens) = fun o => o.expr.values := by
    funext o
    obtain ⟨expr, direction, nulls, ignoreCase⟩ := o
    cases ignoreCase <;> simp [OrderItem.tokens, Expr.values]
  rw [orderTokens_eq, List.flatMap_map, each]

@[simp] theorem TableSource.values_table (schema : Option String) (name : String) :
    (table schema name).values = [] := by
  cases schema <;> rfl

@[simp] theorem TableSource.values_select (s : Select) : (select s).values = s.values := by
  simp [TableSource.values, Select.values, tokens]

/-- **The values of a query are those of its clauses, in the order of the clauses.** -/
theorem Select.values_eq (s : Select) : s.values =
    s.columns.flatMap (·.values) ++ s.source.toList.flatMap (·.source.values) ++
      s.joins.flatMap (fun j => j.source.values ++ j.on.values) ++
      s.condition.toList.flatMap (·.values) ++ s.groups.flatMap (·.values) ++
      s.having.toList.flatMap (·.values) ++ s.order.flatMap (·.expr.values) ++
      s.limit.toList.flatMap (·.values) ++ s.offset.toList.flatMap (·.values) := by
  obtain ⟨columns, source, joins, condition, groups, having, order, limit, offset⟩ := s
  simp [Select.values, Select.tokens]

end QueryForest.Sql
