import QueryForest.Proofs.Forest.Runs

set_option autoImplicit false

/-!
# Attachment

In every tree that callers can make, the joins are a forest that agrees with their parents, and a
join can be attached to every node that does not hang below it. What a call does to its tree in
order to attach a join is what `Tree.attach` says (`Tree.attaching_eq`).
-/

namespace QueryForest

open Relation (TransGen ReflTransGen)

namespace Tree

variable {t : Tree}

/-- The lists of joins are a forest and agree with the parents of the joins. -/
structure JoinForest (t : Tree) : Prop where
  /-- A join has a parent of an origin just when it is listed under this origin once. Nodes of one
  origin, such as a node and its branches, share a list, so that the list tells no more of the
  parent than its origin. -/
  listed : ∀ origin join, (∃ parent, t.parent? join = some parent ∧ t.origin parent = origin)
    ↔ (t.children origin).count join = 1
  /-- A join that is listed is listed nowhere else. -/
  once : ∀ origin join, join ∈ t.children origin →
    (t.children origin).count join = 1 ∧ ∀ other, join ∈ t.children other → other = origin
  /-- No way up, from a join to its parent and on to the origin of the parent, comes back to the
  join. -/
  acyclic : ∀ join, ¬ t.Below join join

/-- Whether a node has the origin of a join or of one that hangs below it. -/
def Encloses (t : Tree) (join node : NodeId) : Prop :=
  t.origin node = t.origin join ∨
    ∃ lower, t.Below (t.origin join) lower ∧ t.origin node = t.origin lower

namespace Linked

theorem joinForest (h : t.Linked) : t.JoinForest where
  listed origin join := h.count_children.symm
  once origin join listed := by
    have child := h.mem_children.mp listed
    exact ⟨h.count_children.mpr child, fun other again => (h.mem_children.mp again).unique child⟩
  acyclic := h.acyclic

/-- The search of `attach` finds just the nodes that it has to refuse. -/
theorem reaches_iff_encloses (h : t.Linked) {join node : NodeId} :
    t.reaches join node = true ↔ t.Encloses join node := by
  rw [h.reaches_iff, Relation.reflTransGen_iff_eq_or_transGen]
  refine or_congr Iff.rfl ?_
  constructor
  · intro path
    have lower : t.IsJoin (t.origin node) := Below.isJoin path
    exact ⟨t.origin node, path, (h.origin_join _ lower).symm⟩
  · rintro ⟨lower, path, same⟩
    rw [same, h.origin_join lower path.isJoin]
    exact path

theorem attach_error_iff (h : t.Linked) {join parent : NodeId} (isJoin : t.IsJoin join)
    (free : t.parent? join = none) :
    t.attach join parent = .error (.cycle (t.aliasOf join)) ↔ t.Encloses join parent := by
  rw [attach_eq isJoin free, ← h.reaches_iff_encloses]
  split
  · next found => exact ⟨fun _ => found, fun _ => rfl⟩
  · next apart => exact ⟨fun refused => absurd refused (by simp), fun found => absurd found apart⟩

end Linked

end Tree

namespace Forest

variable {f : Forest}

/-- Attaching a join of a tree that callers can make leads to such a tree again. -/
theorem Reachable.attach (h : f.Reachable) {i : TreeId} {t t' : Tree} {join parent : NodeId}
    (ht : f.tree? i = some t) (hparent : parent < t.nodes.length)
    (attached : t.attach join parent = .ok t') : (f.setTree i t').Reachable := by
  have hjoin : f.hasNode ⟨i, join⟩ :=
    hasNode_iff.mpr ⟨t, ht, (Tree.attach_ok attached).1.lt⟩
  have hp : f.hasNode ⟨i, parent⟩ := hasNode_iff.mpr ⟨t, ht, hparent⟩
  have perform : Build.attachTo ⟨i, join⟩ ⟨i, parent⟩ f = .ok () (f.setTree i t') := by
    rw [Build.attachTo_apply ht hp, if_neg (not_not_intro rfl), attached]
  have made := @after_ok f _ ⟨i, join⟩ (.attachTo ⟨i, join⟩ ⟨i, parent⟩) (Build.then_ok _ perform)
  rw [← made]
  refine h.after _ fun r hr => ?_
  rcases List.mem_cons.mp hr with rfl | hr
  · exact hjoin
  · rw [List.mem_singleton.mp hr]
    exact hp

/-- **The joins of every tree that callers can make are a forest that agrees with their parents. A
join without a parent is refused one just when this parent has the origin of the join or of a join
below it, and otherwise it is attached, and the joins are a forest again.** -/
theorem joinForest_attach (h : f.Reachable) {i : TreeId} {t : Tree} (ht : f.tree? i = some t) :
    t.JoinForest ∧ ∀ join parent, t.IsJoin join → t.parent? join = none → parent < t.nodes.length →
      (t.attach join parent = .error (.cycle (t.aliasOf join)) ↔ t.Encloses join parent) ∧
      (¬ t.Encloses join parent → ∃ t', t.attach join parent = .ok t' ∧
        t'.parent? join = some parent ∧ t'.JoinForest ∧ (f.setTree i t').Reachable) := by
  have linked := (h.sound.tree i t ht).linked
  refine ⟨linked.joinForest, fun join parent isJoin free hparent => ?_⟩
  refine ⟨linked.attach_error_iff isJoin free, fun apart => ?_⟩
  have attached : t.attach join parent = .ok (t.addLink join parent) := by
    rw [Tree.attach_eq isJoin free, if_neg (mt linked.reaches_iff_encloses.mp apart)]
  refine ⟨_, attached, ?_, ?_, h.attach ht hparent attached⟩
  · rw [Tree.parent_addLink isJoin, if_pos rfl]
  · exact ((h.sound.tree i t ht).attach hparent attached).linked.joinForest

/-- Two joins, the second of which is attached to the first before that is attached itself. -/
def bottomUp : List Action :=
  [.call (.root {} ⟨"order", "Order", "orders"⟩ (some "o") {}),
    .call (.join ⟨0, 0⟩ ⟨"customer", "Customer", "customers"⟩ .inner (some "c")),
    .call (.join ⟨0, 0⟩ ⟨"address", "Address", "addresses"⟩ .inner (some "a")),
    .call (.attachTo ⟨0, 2⟩ ⟨0, 1⟩)]

theorem joinForest_attach_bottomUp : ∃ t, (empty.run bottomUp).tree? 0 = some t ∧
    t.attach 1 2 = .error (.cycle "c") ∧ ∃ t', t.attach 1 0 = .ok t' ∧ t'.JoinForest := by
  let t := ((empty.run bottomUp).tree? 0).get (by decide)
  have ht : (empty.run bottomUp).tree? 0 = some t := (Option.some_get _).symm
  have reachable : (empty.run bottomUp).Reachable := ⟨bottomUp, by decide, rfl⟩
  have attach := (joinForest_attach reachable ht).2 1
  have edge : t.IsChild 1 2 := ⟨1, by decide, by decide⟩
  have cycle := (attach 2 (by decide) (by decide) (by decide)).1
  have apart : ¬ t.Encloses 1 0 := by
    have linked := (reachable.sound.tree 0 t ht).linked
    rw [← linked.reaches_iff_encloses]
    decide
  obtain ⟨t', attached, -, forest, -⟩ := (attach 0 (by decide) (by decide) (by decide)).2 apart
  exact ⟨t, ht, cycle.mpr (Or.inr ⟨2, TransGen.single edge, rfl⟩), t', attached, forest⟩

end Forest

end QueryForest
