import QueryForest.Proofs.Forest.Runs

set_option autoImplicit false

/-!
# What stays of a node

Nodes are never taken away, and whatever is asked of a forest, a node keeps its alias and its origin
and stays a join or none: `Tree.Kept` says so of a tree and one that it has become, and `Kept` of
forests. Every step keeps all trees like this (`Step.kept`), and so does every run (`Sound.run_kept`).
-/

namespace QueryForest

namespace Tree

/-- Whether the nodes of a tree are found again in another one. -/
structure Kept (t t' : Tree) : Prop where
  length : t.nodes.length ≤ t'.nodes.length
  aliasOf : ∀ id < t.nodes.length, t'.aliasOf id = t.aliasOf id
  origin : ∀ id < t.nodes.length, t'.origin id = t.origin id
  isJoin : ∀ id < t.nodes.length, (t'.IsJoin id ↔ t.IsJoin id)

namespace Kept

variable {t t' t'' : Tree}

theorem refl (t : Tree) : t.Kept t :=
  ⟨Nat.le_refl _, fun _ _ => rfl, fun _ _ => rfl, fun _ _ => Iff.rfl⟩

theorem trans (h : t.Kept t') (h' : t'.Kept t'') : t.Kept t'' := by
  have there {id : NodeId} (hid : id < t.nodes.length) : id < t'.nodes.length :=
    Nat.lt_of_lt_of_le hid h.length
  constructor
  case length => exact Nat.le_trans h.length h'.length
  case aliasOf => exact fun id hid => (h'.aliasOf id (there hid)).trans (h.aliasOf id hid)
  case origin => exact fun id hid => (h'.origin id (there hid)).trans (h.origin id hid)
  case isJoin => exact fun id hid => (h'.isJoin id (there hid)).trans (h.isJoin id hid)

theorem addNode (t : Tree) (n : Node) (aliases : AliasTable) : t.Kept (t.addNode n aliases) :=
  ⟨by simp, fun _ hid => t.aliasOf_addNode n aliases hid, fun _ hid => t.origin_addNode n aliases hid,
    fun _ hid => isJoin_addNode hid aliases⟩

theorem edit (t : Tree) (id : NodeId) (e : Edit) : t.Kept (t.modify id e.apply) := by
  refine ⟨by simp, fun k _ => aliasOf_edit e t id k, fun k _ => origin_edit e t id k, fun k _ => ?_⟩
  have same := congrArg Option.isSome (reference_edit e t id k)
  rw [Option.isSome_map, Option.isSome_map] at same
  rw [IsJoin, IsJoin, same]

theorem addLink (t : Tree) (join parent : NodeId) : t.Kept (t.addLink join parent) := by
  refine ⟨?_, fun k _ => ?_, fun k _ => origin_addLink k, fun k _ => isJoin_addLink k⟩
  · exact Nat.le_of_eq (t.length_modify join (setParent parent)).symm
  · show ((t.modify join (setParent parent)).node k).aliasName = (t.node k).aliasName
    rw [node_modify]
    split <;> rfl

end Kept

end Tree

namespace Forest

/-- Whether the trees of a forest are found again in another one, with all their nodes. -/
def Kept (f g : Forest) : Prop :=
  ∀ i t, f.tree? i = some t → ∃ t', g.tree? i = some t' ∧ t.Kept t'

variable {f g h : Forest} {i : TreeId} {t t' : Tree} {r : NodeRef}

namespace Kept

theorem refl (f : Forest) : f.Kept f := fun _ t ht => ⟨t, ht, .refl t⟩

theorem trans (first : f.Kept g) (rest : g.Kept h) : f.Kept h := by
  intro i t ht
  obtain ⟨t', ht', kept⟩ := first i t ht
  obtain ⟨t'', ht'', kept'⟩ := rest i t' ht'
  exact ⟨t'', ht'', kept.trans kept'⟩

theorem setTree (ht : f.tree? i = some t) (kept : t.Kept t') : f.Kept (f.setTree i t') := by
  intro k u hu
  rw [tree?_setTree ht]
  by_cases same : k = i
  · rw [same, ht] at hu
    obtain rfl := Option.some.inj hu
    exact ⟨t', if_pos same, kept⟩
  · exact ⟨u, by rw [if_neg same, hu], .refl u⟩

theorem edit (ht : f.tree? r.tree = some t) (e : Edit) : f.Kept (f.edit r e) := by
  rw [edit_eq ht]
  exact setTree ht (.edit t r.node e)

theorem addTree (f : Forest) (t : Tree) : f.Kept (f.addTree t).2 := by
  intro i u hu
  have old : i ≠ f.trees.length := Nat.ne_of_lt (tree?_lt hu)
  exact ⟨u, by rw [tree?_addTree, if_neg old, hu], .refl u⟩

/-- Nodes are never taken away. -/
theorem hasNode (kept : f.Kept g) (hr : f.hasNode r) : g.hasNode r := by
  obtain ⟨t, ht, small⟩ := hasNode_iff.mp hr
  obtain ⟨t', ht', keeps⟩ := kept r.tree t ht
  exact hasNode_iff.mpr ⟨t', ht', Nat.lt_of_lt_of_le small keeps.length⟩

end Kept

/-- **Every step keeps all nodes, with their aliases and origins.** -/
theorem Step.kept {attached : Option (NodeRef × NodeRef)} (step : Step f attached g) :
    f.Kept g := by
  cases step with
  | handles => exact .refl _
  | root mappings entity explicit reserved result outer enclosing => exact .addTree _ _
  | branch ht hid => exact .setTree ht (.addNode _ _ _)
  | join ht hreference nestable made =>
      obtain ⟨-, aliasName, aliases, -, -, rfl⟩ := Tree.addJoin_ok made
      exact .setTree ht (.addNode _ _ _)
  | attach ht hparent attached =>
      obtain ⟨-, -, -, rfl⟩ := Tree.attach_ok attached
      exact .setTree ht (.addLink _ _ _)
  | edit ht nestable => exact .edit ht _

theorem Steps.kept {log : List (NodeRef × NodeRef)} (steps : Steps f log g) : f.Kept g := by
  induction steps with
  | refl => exact .refl _
  | head step _ ih => exact step.kept.trans ih

namespace Sound

theorem run_kept (h : f.Sound) {actions : List Action} (admitted : f.admits actions) :
    f.Kept (f.run actions) :=
  (h.run_steps actions admitted).kept

end Sound

end Forest

end QueryForest
