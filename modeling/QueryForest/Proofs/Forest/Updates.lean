import Mathlib.Logic.Function.Basic
import QueryForest.Proofs.Forest.Sound

set_option autoImplicit false

/-!
# How the nodes of a forest change

What is done to a forest changes one of its nodes, or adds one (`Updated`). Everything that is told of
the nodes one by one has to be told anew of this node only.
-/

namespace QueryForest.Forest

variable {f g : Forest} {i : TreeId} {t : Tree} {r s : NodeRef}

/-! ## Changed nodes -/

theorem node_congr (same : f.tree? r.tree = g.tree? r.tree) : f.node r = g.node r := by
  unfold node
  rw [same]

/-- A tree that differs in one node makes a forest that does. -/
theorem node_setTree (ht : f.tree? i = some t) {t' : Tree} {id : NodeId} {n : Node}
    (same : ∀ k, t'.node k = if k = id then n else t.node k) :
    (f.setTree i t').node = Function.update f.node ⟨i, id⟩ n := by
  funext s
  by_cases here : s.tree = i
  · have before : f.tree? s.tree = some t := by rw [here, ht]
    have after : (f.setTree i t').tree? s.tree = some t' := by rw [tree?_setTree ht, if_pos here]
    rw [node_eq after, same]
    by_cases hk : s.node = id
    · have target : s = ⟨i, id⟩ := by rw [← here, ← hk]
      rw [if_pos hk, target, Function.update_self]
    · have other : s ≠ ⟨i, id⟩ := fun same => hk (congrArg NodeRef.node same)
      rw [if_neg hk, Function.update_of_ne other, node_eq before]
  · have other : s ≠ ⟨i, id⟩ := fun same => here (congrArg NodeRef.tree same)
    rw [Function.update_of_ne other]
    exact node_congr (by rw [tree?_setTree ht, if_neg here])

theorem node_addNode (ht : f.tree? i = some t) (n : Node) (aliases : AliasTable) :
    (f.setTree i (t.addNode n aliases)).node = Function.update f.node ⟨i, t.nodes.length⟩ n := by
  refine node_setTree ht fun k => ?_
  by_cases new : k = t.nodes.length
  · rw [if_pos new, new, Tree.node_addNode_new]
  · rw [if_neg new, t.node_addNode_of_ne n aliases new]

theorem node_modify (ht : f.tree? r.tree = some t) (small : r.node < t.nodes.length) {t' : Tree}
    {change : Node → Node} (nodes : t'.nodes = (t.modify r.node change).nodes) :
    (f.setTree r.tree t').node = Function.update f.node r (change (f.node r)) := by
  refine node_setTree ht fun k => ?_
  have same : t'.node k = (t.modify r.node change).node k := by rw [Tree.node, Tree.node, nodes]
  rw [same, node_eq ht, t.node_modify]
  by_cases here : k = r.node
  · rw [if_pos here, if_pos ⟨here, here ▸ small⟩, here]
  · rw [if_neg here, if_neg fun both => here both.1]

theorem node_addTree (f : Forest) {t : Tree} {root : Node} (single : t.nodes = [root]) :
    (f.addTree t).2.node = Function.update f.node ⟨f.trees.length, 0⟩ root := by
  funext s
  by_cases here : s.tree = f.trees.length
  · have added : (f.addTree t).2.tree? s.tree = some t := by rw [tree?_addTree, if_pos here]
    rw [node_eq added]
    by_cases first : s.node = 0
    · have target : s = ⟨f.trees.length, 0⟩ := by rw [← here, ← first]
      rw [target, Function.update_self]
      exact Tree.node_single single
    · have other : s ≠ ⟨f.trees.length, 0⟩ := fun same => first (congrArg NodeRef.node same)
      have beyond : t.nodes.length ≤ s.node := by
        rw [single]
        exact Nat.pos_of_ne_zero first
      -- Neither forest has a node here.
      have missing : f.tree? s.tree = none := List.getElem?_eq_none (Nat.le_of_eq here.symm)
      rw [Function.update_of_ne other, t.node_of_length_le beyond]
      simp [node, missing]
  · have other : s ≠ ⟨f.trees.length, 0⟩ := fun same => here (congrArg NodeRef.tree same)
    rw [Function.update_of_ne other]
    exact node_congr (by rw [tree?_addTree, if_neg here])

/-! ## One node more or another one -/

/-- Which nodes there are when a tree has taken the place of another one. -/
theorem hasNode_setTree_iff (ht : f.tree? i = some t) (t' : Tree) :
    (f.setTree i t').hasNode r ↔ if r.tree = i then r.node < t'.nodes.length else f.hasNode r := by
  rw [hasNode_iff, tree?_setTree ht]
  split
  · constructor
    · rintro ⟨u, hu, small⟩
      exact Option.some.inj hu ▸ small
    · exact fun small => ⟨t', rfl, small⟩
  · exact hasNode_iff.symm

/-- An edit adds no node. -/
theorem hasNode_edit (ht : f.tree? r.tree = some t) (e : Edit) :
    (f.edit r e).hasNode s ↔ f.hasNode s := by
  rw [edit_eq ht, hasNode_setTree_iff ht]
  split
  · next here =>
    rw [t.length_modify, hasNode_iff, here, ht]
    exact ⟨fun small => ⟨t, rfl, small⟩, fun ⟨u, hu, small⟩ => Option.some.inj hu ▸ small⟩
  · rfl

/-- Whether two forests have the same nodes but for one, which the first one need not have. -/
structure Updated (f : Forest) (s : NodeRef) (n : Node) (g : Forest) : Prop where
  node : g.node = Function.update f.node s n
  hasNode : ∀ r, g.hasNode r ↔ f.hasNode r ∨ r = s

namespace Updated

variable {n : Node}

theorem node_self (h : f.Updated s n g) : g.node s = n := by
  rw [h.node, Function.update_self]

theorem node_of_ne (h : f.Updated s n g) (other : r ≠ s) : g.node r = f.node r := by
  rw [h.node, Function.update_of_ne other]

theorem addNode (ht : f.tree? i = some t) (n : Node) (aliases : AliasTable) :
    f.Updated ⟨i, t.nodes.length⟩ n (f.setTree i (t.addNode n aliases)) := by
  refine ⟨node_addNode ht n aliases, fun r => ?_⟩
  rw [hasNode_setTree_iff ht]
  split
  · next here =>
    have old : f.hasNode r ↔ r.node < t.nodes.length := by
      rw [hasNode_iff, here, ht]
      exact ⟨fun ⟨u, hu, small⟩ => Option.some.inj hu ▸ small, fun small => ⟨t, rfl, small⟩⟩
    have new : r = ⟨i, t.nodes.length⟩ ↔ r.node = t.nodes.length :=
      ⟨congrArg NodeRef.node, fun last => by rw [← here, ← last]⟩
    rw [t.lt_length_addNode n aliases, old, new]
  · next elsewhere =>
    have other : r ≠ ⟨i, t.nodes.length⟩ := fun same => elsewhere (congrArg NodeRef.tree same)
    exact (or_iff_left other).symm

theorem modify (ht : f.tree? r.tree = some t) (small : r.node < t.nodes.length) {t' : Tree}
    {change : Node → Node} (nodes : t'.nodes = (t.modify r.node change).nodes) :
    f.Updated r (change (f.node r)) (f.setTree r.tree t') := by
  have length : t'.nodes.length = t.nodes.length := by rw [nodes, t.length_modify]
  refine ⟨node_modify ht small nodes, fun s => ?_⟩
  have there : f.hasNode r := hasNode_iff.mpr ⟨t, ht, small⟩
  have same : (f.hasNode s ∨ s = r) ↔ f.hasNode s := or_iff_left_of_imp fun same => same ▸ there
  rw [hasNode_setTree_iff ht, same]
  split
  · next here =>
    rw [length, hasNode_iff, here, ht]
    exact ⟨fun small => ⟨t, rfl, small⟩, fun ⟨u, hu, small⟩ => Option.some.inj hu ▸ small⟩
  · rfl

theorem addTree (f : Forest) {root : Node} (single : t.nodes = [root]) :
    f.Updated ⟨f.trees.length, 0⟩ root (f.addTree t).2 := by
  refine ⟨node_addTree f single, fun r => ?_⟩
  rw [hasNode_iff, tree?_addTree]
  split
  · next here =>
    have missing : ¬ f.hasNode r := fun there => Nat.ne_of_lt (hasNode_lt there) here
    rw [or_iff_right missing]
    constructor
    · rintro ⟨u, hu, small⟩
      obtain rfl := Option.some.inj hu
      rw [← here, ← Tree.eq_zero_of_single single small]
    · intro same
      exact ⟨t, rfl, by rw [single, same]; exact Nat.one_pos⟩
  · next elsewhere =>
    have other : r ≠ ⟨f.trees.length, 0⟩ := fun same => elsewhere (congrArg NodeRef.tree same)
    rw [or_iff_left other]
    exact hasNode_iff.symm

end Updated

end QueryForest.Forest
