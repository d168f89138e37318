import QueryForest.Proofs.Forest.Nesting
import QueryForest.Proofs.Forest.Runs
import QueryForest.Proofs.Tree.Scope

set_option autoImplicit false

/-!
# The scope of nested queries

Every query that stands in the query of a node is the query of a node itself, and well scoped like
that.
-/

namespace QueryForest.Forest

open Sql (Select)

variable {f : Forest} {r : NodeRef} {s inner : Select}

namespace Sound

/-- A query in the query of a node is the query of a node. -/
theorem select_within (h : f.Sound) (hr : f.hasNode r) (made : f.select r = .ok s)
    (within : inner.Within s) : ∃ q, f.hasNode q ∧ f.select q = .ok inner := by
  induction within with
  | refl => exact ⟨r, hr, made⟩
  | tail _ step ih =>
      obtain ⟨q, hq, made⟩ := ih
      obtain ⟨t, ht, small⟩ := hasNode_iff.mp hq
      rw [h.select_eq ht] at made
      obtain ⟨v, -, q', hq', made⟩ := (h.tree q.tree t ht).nests small made step
      exact ⟨q', h.hasNode_queries ht (Tree.mem_queries_of_node hq'), made⟩

theorem wellScoped (h : f.Sound) (hr : f.hasNode r) (made : f.select r = .ok s) :
    ∃ t, f.tree? r.tree = some t ∧ s.WellScoped (t.outerColumns r.node) := by
  obtain ⟨t, ht, small⟩ := hasNode_iff.mp hr
  rw [h.select_eq ht] at made
  exact ⟨t, ht, (h.tree r.tree t ht).wellScoped small made⟩

end Sound

/-- **In every forest that callers can make, the query of a node is well scoped, and so is every
query in it: it is the query of a node, and speaks of no tables but its own and those of the
enclosing query that the filters of its nodes are correlated with.** -/
theorem wellScoped_within (h : f.Reachable) (hr : f.hasNode r) (made : f.select r = .ok s) :
    (∃ t, f.tree? r.tree = some t ∧ s.WellScoped (t.outerColumns r.node)) ∧
    ∀ inner, inner.Within s → ∃ q t, f.select q = .ok inner ∧ f.tree? q.tree = some t ∧
      q.node < t.nodes.length ∧ inner.WellScoped (t.outerColumns q.node) := by
  refine ⟨h.sound.wellScoped hr made, fun inner within => ?_⟩
  obtain ⟨q, hq, made⟩ := h.sound.select_within hr made within
  obtain ⟨t, ht, ok⟩ := h.sound.wellScoped hq made
  obtain ⟨u, hu, small⟩ := hasNode_iff.mp hq
  obtain rfl := Option.some.inj (ht.symm.trans hu)
  exact ⟨q, t, made, ht, small, ok⟩

/-- The items of an order, found by a query that is correlated with the query of the order. -/
def correlated : List Action :=
  [.call (.root {} ⟨"order", "Order", "orders"⟩ (some "o") {}),
    .hold "orders" ⟨0, 0⟩,
    .call (.subQuery ⟨0, 0⟩ ⟨"item", "Item", "items"⟩ (some "i")),
    .call (.change ⟨1, 0⟩ (.correlate (.column "order_id") .eq ⟨"order", "Order", "orders"⟩
      (.column "id"))),
    .call (.change ⟨1, 0⟩ (.select (.column "id") none)),
    .call (.change ⟨0, 0⟩ (.select (.column "id") none)),
    .call (.change ⟨0, 0⟩ (.existsQuery ⟨1, 0⟩ false))]

theorem wellScoped_within_correlated : ∃ s, (empty.run correlated).select ⟨1, 0⟩ = .ok s ∧
    s.WellScoped [("o", "id")] := by
  have reachable : (empty.run correlated).Reachable := ⟨correlated, by decide, rfl⟩
  obtain ⟨s, made⟩ : ∃ s, (empty.run correlated).select ⟨1, 0⟩ = .ok s := ⟨_, rfl⟩
  obtain ⟨t, ht, ok⟩ := (wellScoped_within reachable (by decide) made).1
  have outer : ((empty.run correlated).tree? 1).map (·.outerColumns 0) = some [("o", "id")] := by
    decide
  rw [show (empty.run correlated).tree? 1 = some t from ht] at outer
  exact ⟨s, made, Option.some.inj outer ▸ ok⟩

end QueryForest.Forest
