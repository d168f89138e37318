import QueryForest.Proofs.Forest.Runs

set_option autoImplicit false

/-!
# The order of attachment

The links of a tree are the attachments of the run that has made it, in their order
(`links_run`). So the joins of a node are listed in the order in which they were attached to the
node or to one of its branches (`children_run`).
-/

namespace QueryForest.Forest

/-- The links of the trees are some attachments, in their order. -/
structure Logged (f : Forest) (log : List (NodeRef × NodeRef)) : Prop where
  parent : ∀ a ∈ log, a.2.tree = a.1.tree ∧ f.hasNode a.2
  links : ∀ i t, f.tree? i = some t →
    t.links = (log.filter (·.1.tree = i)).map fun a => (t.origin a.2.node, a.1.node)

namespace Logged

variable {f g : Forest} {log : List (NodeRef × NodeRef)} {i : TreeId} {t t' : Tree}

theorem empty : Logged empty [] :=
  ⟨fun _ h => absurd h List.not_mem_nil, fun i t ht => absurd ht (by simp [Forest.empty, tree?])⟩

/-- The attachments in a tree all lead to nodes that are there. -/
theorem parent_lt (h : Logged f log) (ht : f.tree? i = some t) {a : NodeRef × NodeRef}
    (ha : a ∈ log.filter (·.1.tree = i)) : a.2.node < t.nodes.length := by
  obtain ⟨mem, here⟩ := List.mem_filter.mp ha
  obtain ⟨same, there⟩ := h.parent a mem
  obtain ⟨u, hu, small⟩ := hasNode_iff.mp there
  rw [same, of_decide_eq_true here, ht] at hu
  obtain rfl := Option.some.inj hu
  exact small

/-- A tree that grows keeps the origins of its nodes, and with them what its links are made of. -/
theorem origins (h : Logged f log) (ht : f.tree? i = some t)
    (origin : ∀ k < t.nodes.length, t'.origin k = t.origin k) :
    (log.filter (·.1.tree = i)).map (fun a => (t'.origin a.2.node, a.1.node)) = t.links := by
  rw [h.links i t ht]
  exact List.map_congr_left fun a ha => by rw [origin _ (h.parent_lt ht ha)]

theorem setTree (h : Logged f log) (ht : f.tree? i = some t)
    (grown : t.nodes.length ≤ t'.nodes.length)
    (origin : ∀ k < t.nodes.length, t'.origin k = t.origin k) (links : t'.links = t.links) :
    Logged (f.setTree i t') log := by
  refine ⟨fun a ha => ⟨(h.parent a ha).1, hasNode_setTree ht grown (h.parent a ha).2⟩, ?_⟩
  intro k u hu
  rw [tree?_setTree ht] at hu
  split at hu
  · next same =>
    obtain rfl := Option.some.inj hu
    rw [same, links, h.origins ht origin]
  · exact h.links k u hu

theorem addTree (h : Logged f log) (bare : t.links = []) : Logged (f.addTree t).2 log := by
  refine ⟨fun a ha => ⟨(h.parent a ha).1, hasNode_addTree (h.parent a ha).2 t⟩, ?_⟩
  intro k u hu
  rw [tree?_addTree] at hu
  split at hu
  · next new =>
    obtain rfl := Option.some.inj hu
    have none : log.filter (·.1.tree = k) = [] := by
      refine List.filter_eq_nil_iff.mpr fun a ha here => ?_
      obtain ⟨same, there⟩ := h.parent a ha
      have old := hasNode_lt there
      rw [same, of_decide_eq_true here, new] at old
      exact Nat.lt_irrefl _ old
    rw [none, bare]
    rfl
  · exact h.links k u hu

theorem attach (h : Logged f log) (ht : f.tree? i = some t) {join parent : NodeId}
    (hparent : parent < t.nodes.length) :
    Logged (f.setTree i (t.addLink join parent)) (log ++ [(⟨i, join⟩, ⟨i, parent⟩)]) := by
  have grown : t.nodes.length ≤ (t.addLink join parent).nodes.length :=
    Nat.le_of_eq (t.length_modify join (Tree.setParent parent)).symm
  constructor
  · intro a ha
    rcases List.mem_append.mp ha with old | new
    · exact ⟨(h.parent a old).1, hasNode_setTree ht grown (h.parent a old).2⟩
    · obtain rfl := List.mem_singleton.mp new
      exact ⟨rfl, hasNode_setTree ht grown (hasNode_iff.mpr ⟨t, ht, hparent⟩)⟩
  · intro k u hu
    rw [tree?_setTree ht] at hu
    rw [List.filter_append, List.map_append]
    split at hu
    · next same =>
      obtain rfl := Option.some.inj hu
      have one : [((⟨i, join⟩, ⟨i, parent⟩) : NodeRef × NodeRef)].filter (·.1.tree = i)
          = [(⟨i, join⟩, ⟨i, parent⟩)] := by simp
      rw [same, h.origins ht fun k _ => Tree.origin_addLink k, one]
      show t.links ++ [(t.origin parent, join)]
        = t.links ++ [((t.addLink join parent).origin parent, join)]
      rw [Tree.origin_addLink]
    · next other =>
      have none : [((⟨i, join⟩, ⟨i, parent⟩) : NodeRef × NodeRef)].filter (·.1.tree = k) = [] := by
        simp [Ne.symm other]
      rw [none, h.links k u hu]
      simp

/-- **A step adds the join that it attaches.** -/
theorem step {attached : Option (NodeRef × NodeRef)} (h : Logged f log) (step : Step f attached g) :
    Logged g (log ++ attached.toList) := by
  cases step with
  | handles handles => exact (List.append_nil log).symm ▸ ⟨h.parent, h.links⟩
  | root => exact (List.append_nil log).symm ▸ h.addTree rfl
  | @branch i t id ht hid =>
      rw [Option.toList_none, List.append_nil]
      exact h.setTree ht (by simp [Tree.addBranch]) (fun k hk => t.origin_addNode _ _ hk) rfl
  | @join i t t' id reference source kind explicit ht hreference nestable made =>
      rw [Option.toList_none, List.append_nil]
      obtain ⟨-, aliasName, aliases, -, -, rfl⟩ := Tree.addJoin_ok made
      exact h.setTree ht (by simp) (fun k hk => t.origin_addNode _ _ hk) rfl
  | @attach i t t' join parent ht hparent attached =>
      obtain ⟨-, -, -, rfl⟩ := Tree.attach_ok attached
      exact h.attach ht hparent
  | @edit r t e ht nestable =>
      rw [Option.toList_none, List.append_nil, edit_eq ht]
      exact h.setTree ht (by simp) (fun k _ => Tree.origin_edit e t r.node k) rfl

theorem steps {log' : List (NodeRef × NodeRef)} (h : Logged f log) (steps : Steps f log' g) :
    Logged g (log ++ log') := by
  induction steps generalizing log with
  | refl => exact (List.append_nil log).symm ▸ h
  | head step _ ih =>
      rw [← List.append_assoc]
      exact ih (h.step step)

end Logged

variable {actions : List Action} {i : TreeId} {t : Tree}

/-- **The links of a tree are the attachments of the run that has made it.** -/
theorem links_run (admitted : empty.admits actions) (ht : (empty.run actions).tree? i = some t) :
    t.links = ((empty.attachments actions).filter (·.1.tree = i)).map
      fun a => (t.origin a.2.node, a.1.node) := by
  have logged := Logged.empty.steps (sound_empty.run_steps actions admitted)
  exact logged.links i t ht

/-- The joins of a node are listed in the order of their attachment, be it to the node or to one of
its branches. -/
theorem children_run (admitted : empty.admits actions)
    (ht : (empty.run actions).tree? i = some t) (origin : NodeId) :
    t.children origin = ((empty.attachments actions).filter fun a =>
      a.1.tree = i ∧ t.origin a.2.node = origin).map (·.1.node) := by
  rw [Tree.children, links_run admitted ht, List.filter_map, List.map_map, List.filter_filter]
  simp [Function.comp_def, Bool.and_comm]

end QueryForest.Forest
