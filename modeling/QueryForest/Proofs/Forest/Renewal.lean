import QueryForest.Proofs.Forest.Steps
import QueryForest.Proofs.Forest.Updates

set_option autoImplicit false

/-!
# Renewed nodes

A step puts at most one node into its place (`Step.renews`). The node is new: the root of a new tree, a
branch or a join. Or it was there before, and is attached or edited now (`Renews.old`). What is told of
all nodes is told again after a step when it is told of these few.
-/

namespace QueryForest.Forest

variable {f g : Forest} {r s : NodeRef} {n : Node} {t : Tree}

/-- The nodes that a step can put into a place. -/
inductive Renews (f : Forest) : NodeRef → Node → Prop
  | root (entity : Entity) (aliasName : String) (result : ResultSettings) (outer : Option NodeRef)
      (enclosing : ∀ o, outer = some o → f.hasNode o) :
      Renews f ⟨f.trees.length, 0⟩ { source := .entity entity, aliasName, result, origin := 0, outer }
  | branch {i : TreeId} {t : Tree} {id : NodeId} (ht : f.tree? i = some t)
      (small : id < t.nodes.length) : Renews f ⟨i, t.nodes.length⟩ (t.node id).branch
  | join {i : TreeId} {t : Tree} {reference : NodeId} (source : NodeSource) (kind : Sql.JoinKind)
      (aliasName : String) (ht : f.tree? i = some t) (small : reference < t.nodes.length) :
      Renews f ⟨i, t.nodes.length⟩ (t.newJoin reference source kind aliasName)
  | attach {r : NodeRef} {edge : JoinEdge} (parent : NodeId) (there : f.hasNode r)
      (join : (f.node r).join = some edge) (free : edge.parent = none) :
      Renews f r (Tree.setParent parent (f.node r))
  | edit {r : NodeRef} (e : Edit) (there : f.hasNode r) : Renews f r (e.apply (f.node r))

/-- An edit beyond the nodes of a tree has no effect. -/
theorem node_edit_missing (ht : f.tree? r.tree = some t) (missing : ¬ f.hasNode r) (e : Edit) :
    (f.edit r e).node = f.node := by
  have beyond : ¬ r.node < t.nodes.length := fun small => missing (hasNode_iff.mpr ⟨t, ht, small⟩)
  funext s
  by_cases here : s.tree = r.tree
  · have after : (f.edit r e).tree? s.tree = some (t.modify r.node e.apply) := by
      rw [here, tree?_edit ht]
    have before : f.tree? s.tree = some t := by rw [here, ht]
    have other : ¬ (s.node = r.node ∧ s.node < t.nodes.length) := fun both => beyond (both.1 ▸ both.2)
    rw [node_eq after, node_eq before, t.node_modify, if_neg other]
  · rw [edit_eq ht]
    exact node_congr (by rw [tree?_setTree ht, if_neg here])

/-- **A step puts one node into its place at most.** -/
theorem Step.renews {attached : Option (NodeRef × NodeRef)} (step : Step f attached g) :
    (g.node = f.node ∧ ∀ r, g.hasNode r ↔ f.hasNode r) ∨ ∃ s n, f.Renews s n ∧ f.Updated s n g := by
  cases step with
  | handles => exact Or.inl ⟨rfl, fun r => Iff.rfl⟩
  | root mappings entity explicit reserved result outer enclosing =>
      exact Or.inr ⟨_, _, .root entity _ result outer enclosing, .addTree f rfl⟩
  | branch ht hid => exact Or.inr ⟨_, _, .branch ht hid, .addNode ht _ _⟩
  | join ht hreference nestable made =>
      obtain ⟨-, aliasName, aliases, -, -, rfl⟩ := Tree.addJoin_ok made
      exact Or.inr ⟨_, _, .join _ _ aliasName ht hreference, .addNode ht _ _⟩
  | @attach i t t' join parent ht hparent attached =>
      obtain ⟨isJoin, free, -, rfl⟩ := Tree.attach_ok attached
      have same : f.node ⟨i, join⟩ = t.node join := node_eq ht
      obtain ⟨edge, hedge⟩ := Option.isSome_iff_exists.mp isJoin
      have there : f.hasNode ⟨i, join⟩ := hasNode_iff.mpr ⟨t, ht, isJoin.lt⟩
      refine Or.inr ⟨⟨i, join⟩, _, .attach parent there (same ▸ hedge) ?_,
        @Updated.modify f t ⟨i, join⟩ ht isJoin.lt (t.addLink join parent) _ rfl⟩
      rwa [Tree.parent?, hedge, Option.bind_some] at free
  | @edit r t e ht nestable =>
      by_cases there : f.hasNode r
      · refine Or.inr ⟨r, _, .edit e there, ?_⟩
        rw [edit_eq ht]
        exact .modify ht (lt_of_hasNode ht there) rfl
      · exact Or.inl ⟨node_edit_missing ht there e, fun s => hasNode_edit ht e⟩

/-- A node that is there is put into its place again by its attachment or by an edit. -/
theorem Renews.old (renews : f.Renews s n) (there : f.hasNode s) :
    (∃ edge parent, (f.node s).join = some edge ∧ edge.parent = none ∧
      n = Tree.setParent parent (f.node s)) ∨ ∃ e : Edit, n = e.apply (f.node s) := by
  have new {i : TreeId} {t : Tree} (ht : f.tree? i = some t)
      (there : f.hasNode ⟨i, t.nodes.length⟩) : False :=
    Nat.lt_irrefl _ (lt_of_hasNode (r := ⟨i, t.nodes.length⟩) ht there)
  cases renews with
  | root => exact absurd (hasNode_lt there) (Nat.lt_irrefl _)
  | branch ht small => exact (new ht there).elim
  | join source kind aliasName ht small => exact (new ht there).elim
  | attach parent there join free => exact Or.inl ⟨_, parent, join, free, rfl⟩
  | edit e there => exact Or.inr ⟨e, rfl⟩

end QueryForest.Forest
