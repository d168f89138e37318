import QueryForest.Proofs.Forest.Sound

set_option autoImplicit false

/-!
# Steps

Everything that a call does to a forest is done in steps: a tree is added or the handles change, a
tree is given a branch or a join, a join is attached, or a node is edited. `Step` says what each of
them can do and under which condition, and gives the join that it attaches, if it attaches one. A
whole run is a sequence of `Steps` (`Sound.run_steps`), so that what every step keeps holds of every
forest that callers can make.
-/

namespace QueryForest

/-! ## The queries of edited nodes -/

/-- The query that an edit nests. -/
def Edit.query? : Edit → Option NodeRef
  | filter predicate => predicate.query?
  | _ => none

/-- An edit adds its own query at most. -/
theorem Edit.queries_apply (e : Edit) (n : Node) {q : NodeRef} (h : q ∈ (e.apply n).queries) :
    q ∈ n.queries ∨ e.query? = some q := by
  rw [Node.mem_queries] at h ⊢
  rw [source_apply] at h
  cases e with
  | filter predicate =>
      rcases h with source | ⟨p, hp, hq⟩
      · exact Or.inl (Or.inl source)
      · rcases List.mem_append.mp hp with old | new
        · exact Or.inl (Or.inr ⟨p, old, hq⟩)
        · obtain rfl := List.mem_singleton.mp new
          exact Or.inr hq
  | select c aliasName =>
      have same : ((Edit.select c aliasName).apply n).filters = n.filters := by
        simp only [apply, Node.select]
        split <;> rfl
      exact Or.inl (same ▸ h)
  | exclude column =>
      have same : ((Edit.exclude column).apply n).filters = n.filters := by
        simp only [apply, Node.exclude]
        split <;> rfl
      exact Or.inl (same ▸ h)
  | _ => exact Or.inl h

namespace Tree

variable {t : Tree} {q : NodeRef}

theorem queries_addNode (n : Node) (aliases : AliasTable) :
    (t.addNode n aliases).queries = t.queries ++ n.queries := by
  simp [queries, addNode]

/-- Changing a node adds the queries that it has afterwards at most. -/
theorem queries_modify {id : NodeId} {change : Node → Node}
    (h : q ∈ (t.modify id change).queries) :
    q ∈ t.queries ∨ ∃ n ∈ t.nodes, q ∈ (change n).queries := by
  obtain ⟨n, hn, hq⟩ := mem_queries.mp h
  obtain ⟨k, hk, rfl⟩ := (mem_nodes_iff _).mp hn
  rw [length_modify] at hk
  rw [node_modify] at hq
  split at hq
  · exact Or.inr ⟨t.node k, t.node_mem hk, hq⟩
  · exact Or.inl (mem_queries.mpr ⟨t.node k, t.node_mem hk, hq⟩)

end Tree

namespace Forest

/-! ## Steps -/

/-- A step that leads from one forest to the next, with the join that it attaches and the parent of
this join. -/
inductive Step : Forest → Option (NodeRef × NodeRef) → Forest → Prop
  | handles (f : Forest) (handles : List (String × NodeRef)) : Step f none { f with handles }
  | root (f : Forest) (mappings : Registry) (entity : Entity) (explicit : Option String)
      (reserved : List String) (result : ResultSettings) (outer : Option NodeRef)
      (enclosing : ∀ o, outer = some o → f.hasNode o) :
      Step f none (f.addTree (Tree.ofRoot mappings entity explicit reserved result outer)).2
  | branch {f : Forest} {i : TreeId} {t : Tree} {id : NodeId} (ht : f.tree? i = some t)
      (hid : id < t.nodes.length) : Step f none (f.setTree i (t.addBranch id).2)
  | join {f : Forest} {i : TreeId} {t t' : Tree} {id reference : NodeId} {source : NodeSource}
      {kind : Sql.JoinKind} {explicit : Option String} (ht : f.tree? i = some t)
      (hreference : reference < t.nodes.length)
      (nestable : ∀ q, source.query? = some q → f.Nestable i q)
      (made : t.addJoin reference source kind explicit = .ok (id, t')) :
      Step f none (f.setTree i t')
  | attach {f : Forest} {i : TreeId} {t t' : Tree} {join parent : NodeId}
      (ht : f.tree? i = some t) (hparent : parent < t.nodes.length)
      (attached : t.attach join parent = .ok t') :
      Step f (some (⟨i, join⟩, ⟨i, parent⟩)) (f.setTree i t')
  | edit {f : Forest} {r : NodeRef} {t : Tree} {e : Edit} (ht : f.tree? r.tree = some t)
      (nestable : ∀ q, e.query? = some q → f.Nestable r.tree q) : Step f none (f.edit r e)

/-- Some steps, with the joins that they attach. -/
inductive Steps : Forest → List (NodeRef × NodeRef) → Forest → Prop
  | refl (f : Forest) : Steps f [] f
  | head {f g h : Forest} {attached : Option (NodeRef × NodeRef)}
      {log : List (NodeRef × NodeRef)} (step : Step f attached g) (steps : Steps g log h) :
      Steps f (attached.toList ++ log) h

theorem Step.steps {f g : Forest} {attached : Option (NodeRef × NodeRef)}
    (step : Step f attached g) : Steps f attached.toList g := by
  have one := Steps.head step (Steps.refl g)
  rwa [List.append_nil] at one

theorem Steps.trans {f g h : Forest} {log log' : List (NodeRef × NodeRef)} (first : Steps f log g)
    (rest : Steps g log' h) : Steps f (log ++ log') h := by
  induction first with
  | refl => exact rest
  | head step _ ih =>
      rw [List.append_assoc]
      exact Steps.head step (ih rest)

/-- **Every step keeps the forest sound.** -/
theorem Step.sound {f g : Forest} {attached : Option (NodeRef × NodeRef)}
    (step : Step f attached g) (h : f.Sound) : g.Sound := by
  cases step with
  | handles => exact h.handles _
  | root mappings entity explicit reserved result outer enclosing =>
      exact h.addTree (Tree.Sound.ofRoot mappings entity explicit reserved result outer) rfl
  | @branch i t id ht hid =>
      refine @Sound.setTree f i t _ h ht ((h.tree i t ht).addBranch hid) (by simp [Tree.addBranch])
        none (fun q hq => ?_) (by simp)
      -- A branch is a copy, and nests what the node nests that it is a branch of.
      have added : q ∈ t.queries ++ (t.node id).branch.queries := by
        rwa [Tree.addBranch_eq, Tree.queries_addNode] at hq
      rcases List.mem_append.mp added with old | copied
      · exact Or.inl old
      · exact Or.inl (Tree.mem_queries.mpr ⟨t.node id, t.node_mem hid, copied⟩)
  | @join i t t' id reference source kind explicit ht hreference nestable made =>
      have sound := (h.tree i t ht).addJoin hreference made
      obtain ⟨-, aliasName, aliases, -, -, rfl⟩ := Tree.addJoin_ok made
      refine h.setTree ht sound (by simp) (fun q hq => ?_) nestable
      rw [Tree.queries_addNode, List.mem_append] at hq
      -- A new join has no filters yet.
      refine hq.imp_right fun new => ?_
      rcases Node.mem_queries.mp new with source | ⟨p, none, -⟩
      · exact source
      · exact absurd none List.not_mem_nil
  | @attach i t t' join parent ht hparent attached =>
      have sound := (h.tree i t ht).attach hparent attached
      obtain ⟨-, -, -, rfl⟩ := Tree.attach_ok attached
      refine @Sound.setTree f i t _ h ht sound ?_ none (fun q hq => ?_) (by simp)
      · exact Nat.le_of_eq (t.length_modify join (Tree.setParent parent)).symm
      · rcases Tree.queries_modify hq with old | ⟨n, hn, hq⟩
        · exact Or.inl old
        · exact Or.inl (Tree.mem_queries.mpr ⟨n, hn, hq⟩)
  | @edit r t e ht nestable =>
      rw [edit_eq ht]
      refine h.setTree ht ((h.tree r.tree t ht).edit e r.node) (by simp) (fun q hq => ?_) nestable
      rcases Tree.queries_modify hq with old | ⟨n, hn, hq⟩
      · exact Or.inl old
      · exact (e.queries_apply n hq).imp_left fun old => Tree.mem_queries.mpr ⟨n, hn, old⟩

theorem Steps.sound {f g : Forest} {log : List (NodeRef × NodeRef)} (steps : Steps f log g)
    (h : f.Sound) : g.Sound := by
  induction steps with
  | refl => exact h
  | head step _ ih => exact ih (step.sound h)

end Forest

end QueryForest
