import QueryForest.Forest.Select
import QueryForest.Proofs.Forest.Sound
import QueryForest.Proofs.Tree.Select

set_option autoImplicit false

/-!
# Nested queries

In a sound forest the trees below a tree are fewer than those below a tree that nests it. So what
passes from the queries that a tree nests to the queries of the tree holds of all queries
(`Sound.nested_induction`), and the bound on the depth of nesting never cuts a query off: the query
of a node is that of its tree, with the queries of the nested nodes inside (`Sound.select_eq`).
-/

namespace QueryForest.Forest

open Sql (Select)

variable {f : Forest} {t : Tree} {q r : NodeRef}

/-- How many trees there are below a tree, itself among them. -/
def rank (f : Forest) (i : TreeId) : Nat := (f.nestingClosure i).length

namespace Sound

theorem rank_lt (h : f.Sound) (ht : f.tree? r.tree = some t) (hq : q ∈ t.queries) :
    f.rank q.tree < f.rank r.tree := by
  have nested : q ∈ f.queriesOf r.tree := queriesOf_eq ht ▸ hq
  exact Graph.length_preorder_lt h.below h.acyclic (tree?_lt ht) (edge_iff.mpr ⟨q, nested, rfl⟩)

theorem rank_pos (_ : f.Sound) (ht : f.tree? r.tree = some t) : 0 < f.rank r.tree :=
  List.length_pos_iff.mpr (Graph.preorder_ne_nil (tree?_lt ht))

theorem rank_le (h : f.Sound) (ht : f.tree? r.tree = some t) : f.rank r.tree ≤ f.trees.length :=
  Graph.length_preorder_le h.below (tree?_lt ht)

theorem hasNode_queries (h : f.Sound) (ht : f.tree? r.tree = some t) (hq : q ∈ t.queries) :
    f.hasNode q :=
  h.nested r.tree q (queriesOf_eq ht ▸ hq)

/-- **What passes from the queries that a tree nests to the queries of the tree holds of all
queries.** -/
@[elab_as_elim]
theorem nested_induction (h : f.Sound) {P : NodeRef → Prop}
    (step : ∀ r t, f.tree? r.tree = some t → r.node < t.nodes.length →
      (∀ q ∈ t.queries, P q) → P r) (hr : f.hasNode r) : P r := by
  -- By induction on a bound of the rank, which gets smaller from a tree to the ones it nests.
  obtain ⟨bound, enough⟩ : ∃ n, f.rank r.tree ≤ n := ⟨_, Nat.le_refl _⟩
  induction bound generalizing r with
  | zero =>
      obtain ⟨t, ht⟩ := tree?_of_hasNode hr
      exact absurd (h.rank_pos ht) (by omega)
  | succ bound ih =>
      obtain ⟨t, ht, small⟩ := hasNode_iff.mp hr
      refine step r t ht small fun q hq => ih (h.hasNode_queries ht hq) ?_
      have smaller := h.rank_lt ht hq
      omega

/-- Beyond the rank of a tree the depth has no effect on its queries. -/
theorem selectWithin_eq (h : f.Sound) (hr : f.hasNode r) : ∀ depth depth',
    f.rank r.tree ≤ depth → f.rank r.tree ≤ depth' →
      f.selectWithin depth r = f.selectWithin depth' r := by
  refine h.nested_induction ?_ hr
  intro r t ht _ ih depth depth' enough enough'
  have pos := h.rank_pos ht
  obtain ⟨depth, rfl⟩ : ∃ n, depth = n + 1 := ⟨depth - 1, by omega⟩
  obtain ⟨depth', rfl⟩ : ∃ n, depth' = n + 1 := ⟨depth' - 1, by omega⟩
  simp only [selectWithin, ht]
  refine Tree.select_congr (fun v q hq => ?_) r.node
  have nested : q ∈ t.queries := Tree.mem_queries_of_node hq
  have smaller := h.rank_lt ht nested
  exact ih q nested depth depth' (by omega) (by omega)

/-- **The query of a node is that of its tree, with the queries of the nested nodes inside.** -/
theorem select_eq (h : f.Sound) (ht : f.tree? r.tree = some t) :
    f.select r = t.select f.select r.node := by
  have most := h.rank_le ht
  have pos := h.rank_pos ht
  obtain ⟨n, count⟩ : ∃ n, f.trees.length = n + 1 := ⟨f.trees.length - 1, by omega⟩
  have whole (r : NodeRef) : f.select r = f.selectWithin (n + 1) r := by rw [select, count]
  have inner (q : NodeRef) (hq : q ∈ t.queries) : f.selectWithin n q = f.select q := by
    have smaller := h.rank_lt ht hq
    rw [whole]
    exact h.selectWithin_eq (h.hasNode_queries ht hq) _ _ (by omega) (by omega)
  calc f.select r
      = f.selectWithin (n + 1) r := whole r
    _ = t.select (f.selectWithin n) r.node := by simp only [selectWithin, ht]
    _ = t.select f.select r.node :=
        Tree.select_congr (fun _ q hq => inner q (Tree.mem_queries_of_node hq)) r.node

end Sound

end QueryForest.Forest
