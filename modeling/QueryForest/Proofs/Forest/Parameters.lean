import QueryForest.Forest.Run
import QueryForest.Forest.Select
import QueryForest.Proofs.Sql.Layout

set_option autoImplicit false

/-!
# Parameters of statements

Every part of a query is written behind what is there already, with its values as the next
parameters, and no dialect changes which values these are. So the parameters of a statement are
numbered through all the queries in it, in the order of the text.
-/

namespace QueryForest.Forest

open Sql

/-- **Whatever is written for a part of a query is appended to what is there: a text that depends on
the dialect and on the part without its values, with the marks of the next parameters in it, and the
values of the part, which are the same in each dialect. In a statement the parameters are numbered
from the first to the last one in the order of the text, and each is bound to the value in whose
place it stands.** -/
theorem parameters_in_order :
    (∀ e : Expr, Appends (e.pieces ·) (e.erased.pieces ·) (valuesIn e.tokens)) ∧
    (∀ o : OrderItem, Appends (o.pieces ·) (o.erased.pieces ·) (valuesIn o.tokens)) ∧
    (∀ source : TableSource,
      Appends (source.pieces ·) (source.erased.pieces ·) (valuesIn source.tokens)) ∧
    (∀ s : Select, Appends (s.pieces ·) (s.erased.pieces ·) (valuesIn s.tokens)) ∧
    (∀ (s : Select) (d : Dialect), Bound d (s.pieces d) (Output.writeAll d {} (s.pieces d)).sql
      (Output.writeAll d {} (s.pieces d)).params) ∧
    ∀ (f : Forest) (d : Dialect) (r : NodeRef) (statement : Statement),
      f.render d r = .ok statement →
        ∃ s, f.select r = .ok s ∧ Bound d (s.pieces d) statement.sql statement.params := by
  refine ⟨fun e => ?_, fun o => ?_, fun source => ?_, fun s => ?_,
    fun s d => bound_writeAll d (s.pieces d), fun f d r statement made => ?_⟩
  · exact Appends.of_tokens (fun d => e.pieces_eq d) (fun d => e.erased.pieces_eq d) e.tokens_erased
  · exact Appends.of_tokens (fun d => o.pieces_eq d) (fun d => o.erased.pieces_eq d) o.tokens_erased
  · exact Appends.of_tokens (fun d => source.pieces_eq d) (fun d => source.erased.pieces_eq d)
      source.tokens_erased
  · exact Appends.of_tokens (fun d => s.pieces_eq d) (fun d => s.erased.pieces_eq d) s.tokens_erased
  · unfold render at made
    cases hs : f.select r with
    | error e =>
        rw [hs] at made
        exact absurd made (by simp [bind, Except.bind])
    | ok s =>
        rw [hs] at made
        obtain rfl := Except.ok.inj made
        exact ⟨s, rfl, bound_writeAll d (s.pieces d)⟩

/-- Large orders of an item that is cheap. -/
def priced : List Action :=
  [.call (.root {} ⟨"order", "Order", "orders"⟩ (some "o") {}),
    .call (.subQuery ⟨0, 0⟩ ⟨"item", "Item", "items"⟩ (some "i")),
    .call (.change ⟨1, 0⟩ (.select (.column "order_id") none)),
    .call (.change ⟨1, 0⟩ (.compare (.column "price") .lt (.int 10))),
    .call (.change ⟨0, 0⟩ (.select (.column "id") none)),
    .call (.change ⟨0, 0⟩ (.inQuery (.column "id") ⟨1, 0⟩ false)),
    .call (.change ⟨0, 0⟩ (.compare (.column "total") .gt (.int 100)))]

theorem parameters_in_order_priced : ∃ (statement : Statement) (s : Select),
    (empty.run priced).render .postgres ⟨0, 0⟩ = .ok statement ∧
      Bound .postgres (s.pieces .postgres) statement.sql statement.params ∧
      statement.params = [.int 10, .int 100] := by
  obtain ⟨statement, made, params⟩ : ∃ statement,
      (empty.run priced).render .postgres ⟨0, 0⟩ = .ok statement ∧
        statement.params = [.int 10, .int 100] := ⟨_, rfl, rfl⟩
  obtain ⟨-, -, -, -, -, inStatement⟩ := parameters_in_order
  obtain ⟨s, -, bound⟩ := inStatement (empty.run priced) .postgres ⟨0, 0⟩ statement made
  exact ⟨statement, s, made, bound, params⟩

end QueryForest.Forest
