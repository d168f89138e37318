import QueryForest.Proofs.Forest.Constancy

set_option autoImplicit false

/-!
# Where joins have come to

A join has the parent that it was attached to, and no other way leads to a parent (`parent_run`). So it
hangs below the node that it was created from, unless the caller has named another parent
(`parent_reference`).
-/

namespace QueryForest.Forest

variable {f g : Forest} {actions : List Action} {i : TreeId} {t : Tree} {v parent : NodeId}
  {log : List (NodeRef × NodeRef)}

/-- Whether all parents of joins are told by some attachments. -/
def Parented (f : Forest) (log : List (NodeRef × NodeRef)) : Prop :=
  ∀ i t v parent, f.tree? i = some t → t.parent? v = some parent → (⟨i, v⟩, ⟨i, parent⟩) ∈ log

namespace Parented

theorem empty : Parented empty [] := fun _ _ _ _ ht => absurd ht nofun

theorem setTree (h : Parented f log) (ht : f.tree? i = some t) {t' : Tree}
    {log' : List (NodeRef × NodeRef)} (later : ∀ a ∈ log, a ∈ log')
    (parents : ∀ v parent, t'.parent? v = some parent →
      t.parent? v = some parent ∨ (⟨i, v⟩, ⟨i, parent⟩) ∈ log') :
    Parented (f.setTree i t') log' := by
  intro k u v parent hu attached
  rw [tree?_setTree ht] at hu
  split at hu
  · next same =>
    obtain rfl := Option.some.inj hu
    rw [same]
    rcases parents v parent attached with old | new
    · exact later _ (h i t v parent ht old)
    · exact new
  · exact later _ (h k u v parent hu attached)

/-- **A step adds the parent of the join that it attaches, and no other one.** -/
theorem step {attached : Option (NodeRef × NodeRef)} (h : Parented f log) (step : Step f attached g) :
    Parented g (log ++ attached.toList) := by
  have later : ∀ a ∈ log, a ∈ log ++ attached.toList := fun a ha => List.mem_append_left _ ha
  cases step with
  | handles => exact fun k u v parent hu has => later _ (h k u v parent hu has)
  | root mappings entity explicit reserved result outer enclosing =>
      intro k u v parent hu has
      rw [tree?_addTree] at hu
      split at hu
      · -- The root of the new tree is no join.
        obtain rfl := Option.some.inj hu
        have root := (Tree.Sound.ofRoot mappings entity explicit reserved result outer).linked
        have isJoin := Tree.isJoin_of_parent has
        have first : v = 0 := Nat.lt_one_iff.mp isJoin.lt
        exact absurd (first ▸ isJoin) root.root_not_join
      · exact later _ (h k u v parent hu has)
  | @branch i t id ht hid =>
      refine h.setTree ht later fun v parent has => Or.inl ?_
      have fits : t.Fits (t.node id).branch := Or.inr ⟨rfl, id, hid, rfl⟩
      rwa [Tree.addBranch_eq, fits.parent] at has
  | @join i t t' id reference source kind explicit ht hreference nestable made =>
      obtain ⟨-, aliasName, aliases, -, -, rfl⟩ := Tree.addJoin_ok made
      refine h.setTree ht later fun v parent has => Or.inl ?_
      have fits : t.Fits (t.newJoin reference source kind aliasName) :=
        Or.inl ⟨rfl, _, rfl, hreference, rfl⟩
      rwa [fits.parent] at has
  | @attach i t t' join parent ht hparent attached =>
      obtain ⟨isJoin, -, -, rfl⟩ := Tree.attach_ok attached
      refine h.setTree ht later fun v above has => ?_
      rw [Tree.parent_addLink isJoin] at has
      split at has
      · next same =>
        obtain rfl := Option.some.inj has
        rw [same]
        exact Or.inr (List.mem_append_right _ (List.mem_singleton_self _))
      · exact Or.inl has
  | @edit r t e ht nestable =>
      rw [edit_eq ht]
      exact h.setTree ht later fun v parent has => Or.inl (Tree.parent_edit e t r.node v ▸ has)

theorem steps {log' : List (NodeRef × NodeRef)} (h : Parented f log) (steps : Steps f log' g) :
    Parented g (log ++ log') := by
  induction steps generalizing log with
  | refl => exact (List.append_nil log).symm ▸ h
  | head step _ ih =>
      rw [← List.append_assoc]
      exact ih (h.step step)

end Parented

/-- **After every run a join has the parent that an action of the run has attached it to.** -/
theorem parent_run (admitted : empty.admits actions) (ht : (empty.run actions).tree? i = some t)
    (attached : t.parent? v = some parent) :
    (⟨i, v⟩, ⟨i, parent⟩) ∈ empty.attachments actions :=
  Parented.empty.steps (sound_empty.run_steps actions admitted) i t v parent ht attached

/-! ## Parents that the caller names -/

/-- The node that a join was created from stays the same. -/
theorem Sound.run_reference (h : f.Sound) (admitted : f.admits actions) {r : NodeRef}
    (hr : f.hasNode r) : (f.run actions).reference r = f.reference r := by
  have same := h.run_constant Node.constant_reference admitted hr
  unfold reference
  rw [show ((f.run actions).node r).join.map (·.reference) = _ from same]

/-- A join is attached to the node that it was created from, or the parent is named by the caller. -/
theorem Sound.mem_attachments (h : f.Sound) (admitted : f.admits actions) {join above : NodeRef}
    (attached : (join, above) ∈ f.attachments actions) :
    above = (f.run actions).reference join ∨ .call (.attachTo join above) ∈ actions := by
  induction actions generalizing f with
  | nil => exact absurd attached List.not_mem_nil
  | cons a rest ih =>
      obtain ⟨there, admittedRest⟩ := admits_cons.mp admitted
      rcases List.mem_append.mp attached with first | later
      · have made := Option.mem_toList.mp first
        unfold attachment? at made
        split at made
        · next r =>
          obtain ⟨-, same⟩ := Option.ite_none_right_eq_some.mp made
          obtain ⟨rfl, rfl⟩ := Prod.mk.inj (Option.some.inj same)
          exact Or.inl (h.run_reference admitted (there r List.mem_cons_self)).symm
        · next r parent =>
          obtain ⟨-, same⟩ := Option.ite_none_right_eq_some.mp made
          obtain ⟨rfl, rfl⟩ := Prod.mk.inj (Option.some.inj same)
          exact Or.inr List.mem_cons_self
        · exact absurd made nofun
      · rcases ih ((h.after_steps a there).sound h) admittedRest later with own | named
        · exact Or.inl own
        · exact Or.inr (List.mem_cons_of_mem _ named)

/-- **A join hangs below the node that it was created from, unless the caller has named its parent.** -/
theorem parent_reference (admitted : empty.admits actions) (ht : (empty.run actions).tree? i = some t)
    {edge : JoinEdge} (join : (t.node v).join = some edge) (attached : edge.parent = some parent) :
    parent = edge.reference ∨ .call (.attachTo ⟨i, v⟩ ⟨i, parent⟩) ∈ actions := by
  have above : t.parent? v = some parent := Option.bind_eq_some_iff.mpr ⟨edge, join, attached⟩
  refine (sound_empty.mem_attachments admitted (parent_run admitted ht above)).imp_left fun same => ?_
  have node : (empty.run actions).node ⟨i, v⟩ = t.node v := node_eq ht
  have created : (empty.run actions).reference ⟨i, v⟩ = ⟨i, edge.reference⟩ := by
    rw [reference, node, join]
    rfl
  exact congrArg NodeRef.node (same.trans created)

end QueryForest.Forest
