import QueryForest.Forest.Run
import QueryForest.Proofs.Graph.Preorder
import QueryForest.Proofs.Forest.Changes
import QueryForest.Proofs.Tree.Growth

set_option autoImplicit false

/-!
# Sound forests

`Forest.Sound` is what holds of every forest that calls can make: its trees are sound, the queries
that they nest are there, and no tree nests itself at any depth. The last of these is left to the
check of `Build.nest`, which looks for the tree of the host among the trees that the query nests.

A forest stays sound when a tree is added (`Sound.addTree`), and when a tree is replaced by one
that nests at most one query more (`Sound.setTree`).
-/

namespace QueryForest

/-- References to one node of one tree are the same. -/
theorem NodeRef.eq_of_node {r j : NodeRef} (here : r.tree = j.tree) (same : r.node = j.node) :
    r = j := by
  obtain ⟨i, v⟩ := r
  obtain ⟨k, w⟩ := j
  obtain rfl : i = k := here
  exact congrArg (NodeRef.mk i) same

namespace Forest

variable {f : Forest} {i j : TreeId} {t t' : Tree} {q r : NodeRef}

theorem hasNode_iff : f.hasNode r ↔ ∃ t, f.tree? r.tree = some t ∧ r.node < t.nodes.length := by
  simp [hasNode, Option.any_eq_true]

theorem lt_of_hasNode (ht : f.tree? r.tree = some t) (h : f.hasNode r) : r.node < t.nodes.length := by
  obtain ⟨u, hu, small⟩ := hasNode_iff.mp h
  obtain rfl : t = u := Option.some.inj (ht.symm.trans hu)
  exact small

theorem tree?_lt (ht : f.tree? i = some t) : i < f.trees.length :=
  (List.getElem?_eq_some_iff.mp ht).1

theorem hasNode_lt (h : f.hasNode r) : r.tree < f.trees.length := by
  obtain ⟨t, ht⟩ := tree?_of_hasNode h
  exact tree?_lt ht

/-- The queries nested in a tree. -/
def queriesOf (f : Forest) (i : TreeId) : List NodeRef := (f.tree? i).elim [] Tree.queries

theorem queriesOf_eq (ht : f.tree? i = some t) : f.queriesOf i = t.queries := by
  simp [queriesOf, ht]

theorem edge_iff : Graph.Edge f.nestedIn i j ↔ ∃ q ∈ f.queriesOf i, q.tree = j := by
  unfold Graph.Edge nestedIn queriesOf
  cases f.tree? i with
  | none => simp
  | some t => exact Tree.mem_nestedTrees

/-- What holds of every forest that calls can make. -/
structure Sound (f : Forest) : Prop where
  tree : ∀ i t, f.tree? i = some t → t.Sound
  /-- Nested queries are there. -/
  nested : ∀ i, ∀ q ∈ f.queriesOf i, f.hasNode q
  /-- No tree nests itself at any depth. -/
  acyclic : Graph.Acyclic (Graph.Edge f.nestedIn)

theorem sound_empty : empty.Sound := by
  have noEdge (v w : TreeId) : ¬ Graph.Edge empty.nestedIn w v := by
    simp [Graph.Edge, nestedIn, empty, tree?]
  refine ⟨fun i t ht => absurd ht (by simp [empty, tree?]), ?_, ?_⟩
  · intro i q hq
    exact absurd hq (by simp [queriesOf, empty, tree?])
  · intro v cycle
    cases cycle with
    | single edge => exact noEdge v _ edge
    | tail _ edge => exact noEdge v _ edge

namespace Sound

theorem below (h : f.Sound) (v : TreeId) : ∀ w ∈ f.nestedIn v, w < f.trees.length := by
  intro w hw
  obtain ⟨q, hq, rfl⟩ := edge_iff.mp hw
  exact hasNode_lt (h.nested v q hq)

/-- What the check of `Build.nest` looks for. -/
theorem contains_iff (h : f.Sound) (hi : i < f.trees.length) :
    f.contains i j = true ↔ Graph.Reaches f.nestedIn i j := by
  rw [contains, decide_eq_true_iff, nestingClosure]
  exact Graph.mem_preorder_iff h.below hi

end Sound

/-! ## Handles -/

theorem Sound.handles (h : f.Sound) (handles : List (String × NodeRef)) :
    ({ f with handles } : Forest).Sound :=
  ⟨h.tree, h.nested, h.acyclic⟩

/-! ## Added trees -/

theorem tree?_addTree (f : Forest) (t : Tree) (i : TreeId) :
    (f.addTree t).2.tree? i = if i = f.trees.length then some t else f.tree? i := by
  show (f.trees ++ [t])[i]? = _
  by_cases hi : i < f.trees.length
  · rw [List.getElem?_append_left hi, if_neg (Nat.ne_of_lt hi)]
    rfl
  · rw [List.getElem?_append_right (Nat.le_of_not_lt hi)]
    split
    · next same => simp [same]
    · next other =>
      have beyond : f.trees.length < i := Nat.lt_of_le_of_ne (Nat.le_of_not_lt hi) (Ne.symm other)
      have none : f.tree? i = none := List.getElem?_eq_none (Nat.le_of_lt beyond)
      rw [none]
      exact List.getElem?_eq_none (Nat.sub_pos_of_lt beyond)

theorem hasNode_addTree (h : f.hasNode r) (t : Tree) : (f.addTree t).2.hasNode r := by
  obtain ⟨u, hu, hr⟩ := hasNode_iff.mp h
  refine hasNode_iff.mpr ⟨u, ?_, hr⟩
  rw [tree?_addTree, if_neg (Nat.ne_of_lt (tree?_lt hu)), hu]

/-- A new tree that nests nothing keeps the forest sound. -/
theorem Sound.addTree (h : f.Sound) (ht : t.Sound) (bare : t.queries = []) :
    (f.addTree t).2.Sound := by
  have queries (k : TreeId) : (f.addTree t).2.queriesOf k = f.queriesOf k := by
    unfold queriesOf
    rw [tree?_addTree]
    split
    · next new =>
      have none : f.tree? k = none := List.getElem?_eq_none (Nat.le_of_eq new.symm)
      rw [none]
      exact bare
    · rfl
  constructor
  · intro k u hu
    rw [tree?_addTree] at hu
    split at hu
    · obtain rfl := Option.some.inj hu
      exact ht
    · exact h.tree k u hu
  · intro k q hq
    rw [queries] at hq
    exact hasNode_addTree (h.nested k q hq) t
  · refine h.acyclic.mono fun v w edge => ?_
    rw [edge_iff, queries] at edge
    exact edge_iff.mpr edge

/-! ## Replaced trees -/

theorem hasNode_setTree (ht : f.tree? i = some t) (grown : t.nodes.length ≤ t'.nodes.length)
    (h : f.hasNode r) : (f.setTree i t').hasNode r := by
  obtain ⟨u, hu, hr⟩ := hasNode_iff.mp h
  rw [hasNode_iff, tree?_setTree ht]
  by_cases same : r.tree = i
  · rw [same, ht] at hu
    obtain rfl := Option.some.inj hu
    exact ⟨t', if_pos same, Nat.lt_of_lt_of_le hr grown⟩
  · exact ⟨u, by rw [if_neg same, hu], hr⟩

theorem queriesOf_setTree (ht : f.tree? i = some t) (k : TreeId) :
    (f.setTree i t').queriesOf k = if k = i then t'.queries else f.queriesOf k := by
  unfold queriesOf
  rw [tree?_setTree ht]
  split <;> rfl

/-- Whether a query can be nested in a tree. -/
def Nestable (f : Forest) (i : TreeId) (q : NodeRef) : Prop :=
  f.hasNode q ∧ f.contains q.tree i = false

/-- An edge of the nesting after a tree was replaced is an old one, or it leads from this tree to the
query that it nests anew. -/
theorem edge_setTree (ht : f.tree? i = some t) {new : Option NodeRef}
    (queries : ∀ q ∈ t'.queries, q ∈ t.queries ∨ new = some q) {v w : TreeId}
    (edge : Graph.Edge (f.setTree i t').nestedIn v w) :
    Graph.Edge f.nestedIn v w ∨ ∃ q, new = some q ∧ v = i ∧ w = q.tree := by
  rw [edge_iff, queriesOf_setTree ht] at edge
  obtain ⟨q, hq, rfl⟩ := edge
  split at hq
  · next same =>
    rcases queries q hq with old | new
    · exact Or.inl (edge_iff.mpr ⟨q, by rwa [same, queriesOf_eq ht], rfl⟩)
    · exact Or.inr ⟨q, new, same, rfl⟩
  · exact Or.inl (edge_iff.mpr ⟨q, hq, rfl⟩)

/-- A query that passes the check of `Build.nest` closes no cycle of nested trees. -/
theorem Sound.acyclic_setTree (h : f.Sound) (ht : f.tree? i = some t) {new : Option NodeRef}
    (queries : ∀ q ∈ t'.queries, q ∈ t.queries ∨ new = some q)
    (nestable : ∀ q, new = some q → f.Nestable i q) :
    Graph.Acyclic (Graph.Edge (f.setTree i t').nestedIn) := by
  cases new with
  | none =>
      refine h.acyclic.mono fun v w edge => ?_
      rcases edge_setTree ht queries edge with old | ⟨q, none, -⟩
      · exact old
      · exact absurd none (by simp)
  | some q =>
      obtain ⟨there, apart⟩ := nestable q rfl
      refine @Graph.Acyclic.insert _ _ i q.tree h.acyclic (fun v w edge => ?_) fun path => ?_
      · rcases edge_setTree ht queries edge with old | ⟨q', same, rfl, rfl⟩
        · exact Or.inl old
        · obtain rfl := Option.some.inj same
          exact Or.inr ⟨rfl, rfl⟩
      · have found := (h.contains_iff (hasNode_lt there)).mpr path
        exact absurd found (by rw [apart]; decide)

/-- **A tree that nests one query more, if at all, keeps the forest sound as long as the query does
not nest the tree itself.** -/
theorem Sound.setTree (h : f.Sound) (ht : f.tree? i = some t) (ht' : t'.Sound)
    (grown : t.nodes.length ≤ t'.nodes.length) {new : Option NodeRef}
    (queries : ∀ q ∈ t'.queries, q ∈ t.queries ∨ new = some q)
    (nestable : ∀ q, new = some q → f.Nestable i q) : (f.setTree i t').Sound := by
  refine ⟨fun k u hu => ?_, fun k q hq => ?_, h.acyclic_setTree ht queries nestable⟩
  · rw [tree?_setTree ht] at hu
    split at hu
    · obtain rfl := Option.some.inj hu
      exact ht'
    · exact h.tree k u hu
  · refine hasNode_setTree ht grown ?_
    rw [queriesOf_setTree ht] at hq
    split at hq
    · rcases queries q hq with old | new
      · exact h.nested i q (queriesOf_eq ht ▸ old)
      · exact (nestable q new).1
    · exact h.nested k q hq

end Forest

end QueryForest
