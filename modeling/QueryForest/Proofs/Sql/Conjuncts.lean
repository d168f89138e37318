import Mathlib.Data.List.Forall2
import QueryForest.Sql.Syntax

set_option autoImplicit false

/-!
# The parts of a conjunction

A clause of predicates is one expression, in which an `AND` stands between them. Split at its `AND`s
it gives the predicates back, in their order, as long as none of them is a conjunction itself
(`conjuncts_conjunction`).
-/

namespace QueryForest.Sql

/-- The parts of an expression between its `AND`s. -/
def Expr.conjuncts : Expr → List Expr
  | .binary left .and right => left.conjuncts ++ right.conjuncts
  | e => [e]

/-- The parts of a clause, which has none when it is not there. -/
def conjuncts (clause : Option Expr) : List Expr := clause.elim [] Expr.conjuncts

variable {e left right : Expr} {op : Operator} {es : List Expr}

theorem Expr.conjuncts_binary (other : op ≠ .and) :
    (binary left op right).conjuncts = [binary left op right] := by
  cases op <;> first | rfl | exact absurd rfl other

theorem Comparison.operator_ne_and (c : Comparison) : c.operator ≠ .and := by
  cases c <;> decide

theorem Expr.conjuncts_ne_nil (e : Expr) : e.conjuncts ≠ [] := by
  fun_induction Expr.conjuncts e with
  | case1 left right ihLeft ihRight => simp [ihLeft]
  | case2 e other => simp

/-- The conjunction of some predicates has their parts, one after the other. -/
theorem conjuncts_conjunction (es : List Expr) :
    conjuncts (Expr.conjunction es) = es.flatMap Expr.conjuncts := by
  have folded (rest : List Expr) (e : Expr) :
      (rest.foldl (fun acc next => .binary acc .and next) e).conjuncts
        = e.conjuncts ++ rest.flatMap Expr.conjuncts := by
    -- By induction on the predicates that are still to come, for any that were taken in before.
    induction rest generalizing e with
    | nil => simp
    | cons next rest ih =>
        rw [List.foldl_cons, ih, Expr.conjuncts, List.flatMap_cons, List.append_assoc]
  cases es with
  | nil => rfl
  | cons e rest => exact folded rest e

/-- Predicates that are no conjunctions come back as they are. -/
theorem conjuncts_of_plain (plain : ∀ e ∈ es, e.conjuncts = [e]) :
    conjuncts (Expr.conjunction es) = es := by
  rw [conjuncts_conjunction, List.flatMap_congr plain, List.flatMap_singleton']

/-- A clause is missing just when it has no parts. -/
theorem conjuncts_eq_nil_iff {clause : Option Expr} : conjuncts clause = [] ↔ clause = none := by
  cases clause with
  | none => simp [conjuncts]
  | some e => simpa [conjuncts] using e.conjuncts_ne_nil

end QueryForest.Sql
