import QueryForest.Proofs.Forest.Constancy
import QueryForest.Proofs.Forest.Updates

set_option autoImplicit false

/-!
# What nodes find around them

The calls on a node look things up: its own columns, for the condition of a join also those of the
node that the join was created from, and for a correlated filter the alias of the node around the
query. None of this ever changes for a node that there is (`Steps.surroundings`), so that it does not
matter when a call looked it up. The node around a query is always there (`Enclosed`).
-/

namespace QueryForest

/-! ## What a tree keeps beside its nodes -/

/-- A new join leaves the mappings and the reserved names alone. -/
theorem Tree.addJoin_settled {t t' : Tree} {reference id : NodeId} {source : NodeSource}
    {kind : Sql.JoinKind} {explicit : Option String}
    (made : t.addJoin reference source kind explicit = .ok (id, t')) :
    t'.mappings = t.mappings ∧ t'.aliases.reserved = t.aliases.reserved := by
  obtain ⟨aliasName, aliases, allocated, -, rfl⟩ := addJoin_allocated made
  exact ⟨rfl, (AliasTable.allocate_ok allocated).2.2⟩

namespace Forest

variable {f g : Forest} {i : TreeId} {t t' : Tree} {r o : NodeRef}
  {attached : Option (NodeRef × NodeRef)} {log : List (NodeRef × NodeRef)}

/-- A step leaves the mappings and the reserved names of every tree alone. -/
theorem Step.settled (step : Step f attached g) (ht : f.tree? i = some t) :
    ∃ t', g.tree? i = some t' ∧ t'.mappings = t.mappings ∧
      t'.aliases.reserved = t.aliases.reserved := by
  have replaced {k : TreeId} {u u' : Tree} (hu : f.tree? k = some u)
      (same : u'.mappings = u.mappings ∧ u'.aliases.reserved = u.aliases.reserved) :
      ∃ t', (f.setTree k u').tree? i = some t' ∧ t'.mappings = t.mappings ∧
        t'.aliases.reserved = t.aliases.reserved := by
    rw [tree?_setTree hu]
    by_cases here : i = k
    · subst here
      obtain rfl := Option.some.inj (hu.symm.trans ht)
      exact ⟨u', if_pos rfl, same⟩
    · exact ⟨t, by rw [if_neg here, ht], rfl, rfl⟩
  cases step with
  | handles => exact ⟨t, ht, rfl, rfl⟩
  | root mappings entity explicit reserved result outer enclosing =>
      have old : i ≠ f.trees.length := Nat.ne_of_lt (tree?_lt ht)
      exact ⟨t, by rw [tree?_addTree, if_neg old, ht], rfl, rfl⟩
  | branch hu hid => exact replaced hu ⟨rfl, rfl⟩
  | join hu hreference nestable made => exact replaced hu (Tree.addJoin_settled made)
  | attach hu hparent attached =>
      obtain ⟨-, -, -, rfl⟩ := Tree.attach_ok attached
      exact replaced hu ⟨rfl, rfl⟩
  | edit hu nestable =>
      rw [edit_eq hu]
      exact replaced hu ⟨rfl, rfl⟩

/-- **A run leaves the mappings and the reserved names of every tree alone.** -/
theorem Steps.settled (steps : Steps f log g) (ht : f.tree? i = some t) :
    ∃ t', g.tree? i = some t' ∧ t'.mappings = t.mappings ∧
      t'.aliases.reserved = t.aliases.reserved := by
  induction steps generalizing t with
  | refl => exact ⟨t, ht, rfl, rfl⟩
  | head step _ ih =>
      obtain ⟨u, hu, mappings, reserved⟩ := step.settled ht
      obtain ⟨t', ht', mappings', reserved'⟩ := ih hu
      exact ⟨t', ht', mappings'.trans mappings, reserved'.trans reserved⟩

/-! ## The node around a query -/

/-- Only a node that there is stands in another query. -/
theorem hasNode_of_outer (h : (f.node r).outer = some o) : f.hasNode r := by
  by_contra missing
  have bare : f.node r = default := by
    cases ht : f.tree? r.tree with
    | none => simp [node, ht]
    | some t =>
        have beyond : t.nodes.length ≤ r.node :=
          Nat.le_of_not_lt fun small => missing (hasNode_iff.mpr ⟨t, ht, small⟩)
        rw [node_eq ht, t.node_of_length_le beyond]
  rw [bare] at h
  cases h

/-- The node around a node is that around an older one of its tree, unless the tree is new. -/
theorem Step.outer (step : Step f attached g) (h : (g.node r).outer = some o) :
    (∃ s, s.tree = r.tree ∧ (f.node s).outer = some o) ∨ f.tree? r.tree = none ∧ f.hasNode o := by
  rcases step.renews with ⟨same, -⟩ | ⟨s, n, renews, updated⟩
  · exact Or.inl ⟨r, rfl, same ▸ h⟩
  · by_cases changed : r = s
    · subst changed
      rw [updated.node_self] at h
      cases renews with
      | root entity aliasName result outer enclosing =>
          exact Or.inr ⟨List.getElem?_eq_none (Nat.le_refl _), enclosing o h⟩
      | @branch i t id ht small =>
          refine Or.inl ⟨⟨i, id⟩, rfl, ?_⟩
          rw [node_eq (r := ⟨i, id⟩) ht]
          exact h
      | join => exact absurd h nofun
      | attach => exact Or.inl ⟨r, rfl, h⟩
      | edit e there => exact Or.inl ⟨r, rfl, (Node.constant_outer.edit e (f.node r)).symm.trans h⟩
    · rw [updated.node_of_ne changed] at h
      exact Or.inl ⟨r, rfl, h⟩

/-- Whether the nodes around queries are there. -/
def Enclosed (f : Forest) : Prop := ∀ r o, (f.node r).outer = some o → f.hasNode o

theorem enclosed_empty : empty.Enclosed := by
  intro r o h
  exact absurd (hasNode_of_outer h) (by simp [hasNode, empty, tree?])

theorem Step.enclosed (step : Step f attached g) (h : f.Enclosed) : g.Enclosed := by
  intro r o around
  rcases step.outer around with ⟨s, -, older⟩ | ⟨-, there⟩
  · exact step.kept.hasNode (h s o older)
  · exact step.kept.hasNode there

theorem Steps.enclosed (steps : Steps f log g) (h : f.Enclosed) : g.Enclosed := by
  induction steps with
  | refl => exact h
  | head step _ ih => exact ih (step.enclosed h)

/-- **In every forest that callers can make, the node around a query is there.** -/
theorem Reachable.enclosed (h : f.Reachable) : f.Enclosed := by
  obtain ⟨actions, admitted, rfl⟩ := h
  exact (sound_empty.run_steps actions admitted).enclosed enclosed_empty

end Forest

/-! ## Surroundings -/

namespace Tree

variable {t t' : Tree} {v w : NodeId}

/-- What a target names is looked up in the mappings. -/
theorem resolve_congr (mappings : t'.mappings = t.mappings) : t'.resolve = t.resolve := by
  funext entity target
  cases target with
  | column name => rfl
  | property name => simp only [resolve, mappings]

/-- The columns of a node are looked up by its entity. -/
theorem column_congr (mappings : t'.mappings = t.mappings)
    (source : (t'.node w).source = (t.node v).source) : t'.column w = t.column v := by
  funext target
  unfold column Node.entity
  rw [source, resolve_congr mappings]

end Tree

/-- What the calls on a node look up. -/
structure Surroundings where
  /-- The columns of the node itself. -/
  column : Target → Except QueryError ColumnRef
  /-- The columns of the node that a join was created from. -/
  left : Target → Except QueryError ColumnRef
  /-- The columns of an entity. -/
  resolve : Entity → Target → Except QueryError ColumnRef
  /-- The alias of the node around the query. -/
  outer : Option String

/-- What the calls on a node of a tree in the forest `f` look up. -/
def Tree.surroundings (f : Forest) (t : Tree) (id : NodeId) : Surroundings where
  column := t.column id
  left := t.column (((t.node id).join.map (·.reference)).getD id)
  resolve := t.resolve
  outer := (t.node id).outer.map fun o => (f.node o).aliasName

/-- A node with the source of another one, around which there is the same node, finds the same but for
the node that it was created from. -/
theorem Tree.surroundings_branch (f : Forest) (t : Tree) {v w : NodeId}
    (source : (t.node w).source = (t.node v).source) (outer : (t.node w).outer = (t.node v).outer) :
    t.surroundings f w = { t.surroundings f v with left := (t.surroundings f w).left } := by
  simp only [surroundings, column_congr rfl source, outer]

namespace Forest

variable {f g : Forest} {t t' : Tree} {log : List (NodeRef × NodeRef)}

/-- **A run does not change what the nodes that there are find around them.** -/
theorem Steps.surroundings (sound : f.Sound) (enclosed : f.Enclosed) (steps : Steps f log g)
    {r : NodeRef} (ht : f.tree? r.tree = some t) (ht' : g.tree? r.tree = some t')
    (small : r.node < t.nodes.length) : t'.surroundings g r.node = t.surroundings f r.node := by
  obtain ⟨u, hu, mappings, -⟩ := steps.settled ht
  obtain rfl := Option.some.inj (hu.symm.trans ht')
  have constant {α : Type} {p : Node → α} (constant : Node.Constant p) {v : NodeId}
      (hv : v < t.nodes.length) : p (u.node v) = p (t.node v) := by
    have same := @Steps.constant α p f g ⟨r.tree, v⟩ constant log steps (hasNode_iff.mpr ⟨t, ht, hv⟩)
    rwa [node_eq (r := ⟨r.tree, v⟩) ht, node_eq (r := ⟨r.tree, v⟩) hu] at same
  have column {v : NodeId} (hv : v < t.nodes.length) : u.column v = t.column v :=
    Tree.column_congr mappings (constant Node.constant_source hv)
  have reference := constant Node.constant_reference small
  have outer := constant Node.constant_outer small
  -- The node that a join was created from is there when the join is.
  have created : ((t.node r.node).join.map (·.reference)).getD r.node < t.nodes.length := by
    cases edge : (t.node r.node).join with
    | none => exact small
    | some edge' => exact (sound.tree r.tree t ht).linked.reference_lt r.node edge' edge
  have aliasOf {o : NodeRef} (around : (t.node r.node).outer = some o) :
      (g.node o).aliasName = (f.node o).aliasName := by
    have there : f.hasNode o := enclosed r o (by rw [node_eq ht, around])
    obtain ⟨v, hv, smallOuter⟩ := hasNode_iff.mp there
    obtain ⟨v', hv', kept⟩ := steps.kept o.tree v hv
    rw [node_eq hv, node_eq hv']
    exact kept.aliasOf o.node smallOuter
  unfold Tree.surroundings
  rw [column small, reference, column created, Tree.resolve_congr mappings, outer]
  congr 1
  cases around : (t.node r.node).outer with
  | none => rfl
  | some o => exact congrArg some (aliasOf around)

end Forest

end QueryForest
