import QueryForest.Proofs.Sql.Conjuncts
import QueryForest.Proofs.Sql.Scope

set_option autoImplicit false

/-!
# The columns of an expression

Which columns an expression speaks of, in the order in which they are written. The columns of a query in
the expression are left out.
-/

namespace QueryForest.Sql

/-- A column as it is written, behind the table that it belongs to. -/
abbrev Reference := Option String × String

mutual

/-- The columns of an expression, from left to right. -/
def Expr.references : Expr → List Reference
  | .name qualifier name => [(qualifier, name)]
  | .wildcard _ | .value _ | .literal _ | .existsSelect _ _ => []
  | .binary left _ right => left.references ++ right.references
  | .call _ args _ _ => referencesIn args
  | .aliased expr _ | .isNull expr _ | .inSelect expr _ _ => expr.references
  | .inList expr items _ => expr.references ++ referencesIn items

/-- The columns of some expressions. -/
def referencesIn : List Expr → List Reference
  | [] => []
  | e :: es => e.references ++ referencesIn es

end

variable {e : Expr} {es : List Expr}

theorem referencesIn_eq (es : List Expr) : referencesIn es = es.flatMap Expr.references := by
  induction es with
  | nil => rfl
  | cons e es ih => rw [referencesIn, ih, List.flatMap_cons]

@[simp] theorem references_underAlias (e : Expr) (aliasName : Option String) :
    (e.underAlias aliasName).references = e.references := by
  cases aliasName <;> simp [Expr.underAlias, Expr.references]

/-- Values have no columns. -/
theorem references_values (values : List Value) : referencesIn (values.map Expr.value) = [] := by
  rw [referencesIn_eq, List.flatMap_map]
  exact List.flatMap_eq_nil_iff.mpr fun v _ => by simp [Expr.references]

/-- The columns of a clause are those of its parts. -/
theorem references_conjuncts (e : Expr) : e.conjuncts.flatMap Expr.references = e.references := by
  fun_induction Expr.conjuncts e with
  | case1 left right ihLeft ihRight =>
      rw [List.flatMap_append, ihLeft, ihRight, Expr.references]
  | case2 e _ => simp

/-- The columns that are written in a query, clause by clause. Queries in it are left out. -/
def Select.references (s : Select) : List Reference := s.expressions.flatMap Expr.references

end QueryForest.Sql
