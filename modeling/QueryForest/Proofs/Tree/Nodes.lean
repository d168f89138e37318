import QueryForest.Tree.Basic

set_option autoImplicit false

/-!
# The nodes of a grown tree

Which queries the nodes of a tree nest, and how the nodes are found again after a node was added or
changed. Places beyond the nodes show the default node.
-/

namespace QueryForest

/-! ## The queries of nodes -/

/-- The query that rows are taken from. -/
def NodeSource.query? : NodeSource → Option NodeRef
  | entity _ => none
  | query q _ => some q

/-- The query that is a part of a predicate. -/
def Filter.query? : Filter → Option NodeRef
  | inQuery _ q _ => some q
  | existsQuery q _ => some q
  | _ => none

theorem Node.mem_queries {n : Node} {q : NodeRef} :
    q ∈ n.queries ↔ n.source.query? = some q ∨ ∃ p ∈ n.filters, p.query? = some q := by
  simp only [queries, List.mem_append, List.mem_filterMap]
  refine or_congr ?_ (exists_congr fun p => and_congr_right fun _ => ?_)
  · cases n.source with
    | entity e => simp [NodeSource.query?]
    | query q' e => simp [NodeSource.query?, eq_comm]
  · cases p <;> rfl

/-- The queries that the nodes of a tree take rows from or filter them by. -/
def Tree.queries (t : Tree) : List NodeRef := t.nodes.flatMap Node.queries

theorem Tree.mem_queries {t : Tree} {q : NodeRef} : q ∈ t.queries ↔ ∃ n ∈ t.nodes, q ∈ n.queries :=
  List.mem_flatMap

theorem Tree.mem_nestedTrees {t : Tree} {j : TreeId} :
    j ∈ t.nestedTrees ↔ ∃ q ∈ t.queries, q.tree = j := by
  simp only [nestedTrees, queries, List.mem_flatMap, List.mem_map]
  constructor
  · rintro ⟨n, hn, q, hq, rfl⟩
    exact ⟨q, ⟨n, hn, hq⟩, rfl⟩
  · rintro ⟨q, ⟨n, hn, hq⟩, rfl⟩
    exact ⟨n, hn, q, hq, rfl⟩

namespace Tree

variable (t : Tree)

theorem node_of_length_le {id : NodeId} (h : t.nodes.length ≤ id) : t.node id = default := by
  simp [node, List.getElem?_eq_none h]

theorem node_mem {id : NodeId} (h : id < t.nodes.length) : t.node id ∈ t.nodes := by
  simp [node, List.getElem?_eq_getElem h]

theorem mem_nodes_iff {n : Node} : n ∈ t.nodes ↔ ∃ id, id < t.nodes.length ∧ t.node id = n := by
  constructor
  · intro h
    obtain ⟨id, hid, rfl⟩ := List.mem_iff_getElem.mp h
    exact ⟨id, hid, by simp [node, hid]⟩
  · rintro ⟨id, hid, rfl⟩
    exact t.node_mem hid

theorem mem_queries_of_node {t : Tree} {id : NodeId} {q : NodeRef} (hq : q ∈ (t.node id).queries) :
    q ∈ t.queries := by
  refine mem_queries.mpr ⟨t.node id, t.node_mem (Nat.lt_of_not_le fun beyond => ?_), hq⟩
  rw [node_of_length_le t beyond] at hq
  exact absurd hq List.not_mem_nil

/-- A node that is a join exists. -/
theorem lt_of_join {id : NodeId} (h : (t.node id).join.isSome) : id < t.nodes.length := by
  refine Nat.lt_of_not_le fun beyond => ?_
  rw [node_of_length_le t beyond] at h
  exact absurd h (by decide)

/-! ## Changed nodes -/

@[simp] theorem length_modify (id : NodeId) (change : Node → Node) :
    (t.modify id change).nodes.length = t.nodes.length := by
  simp [modify]

theorem node_modify (id : NodeId) (change : Node → Node) (k : NodeId) :
    (t.modify id change).node k
      = if k = id ∧ k < t.nodes.length then change (t.node k) else t.node k := by
  by_cases hk : k < t.nodes.length
  · by_cases h : k = id
    · subst h
      simp [node, modify, hk]
    · simp [node, modify, h, Ne.symm h]
  · have beyond : t.nodes.length ≤ k := Nat.le_of_not_lt hk
    rw [node_of_length_le t beyond, node_of_length_le _ (by simpa using beyond)]
    simp [hk]

theorem node_modify_self {id : NodeId} (h : id < t.nodes.length) (change : Node → Node) :
    (t.modify id change).node id = change (t.node id) := by
  simp [node_modify, h]

theorem node_modify_of_ne {id k : NodeId} (h : k ≠ id) (change : Node → Node) :
    (t.modify id change).node k = t.node k := by
  simp [node_modify, h]

/-- What a change leaves alone about every node is the same of all nodes of a changed tree. -/
theorem node_modify_same {α : Type} (p : Node → α) {change : Node → Node}
    (same : ∀ n, p (change n) = p n) (id k : NodeId) :
    p ((t.modify id change).node k) = p (t.node k) := by
  rw [node_modify]
  split
  · exact same _
  · rfl

/-! ## Added nodes -/

/-- Adds a node, and puts an alias table into the place of the old one. -/
def addNode (n : Node) (aliases : AliasTable) : Tree := { t with nodes := t.nodes ++ [n], aliases }

variable (n : Node) (aliases : AliasTable)

@[simp] theorem length_addNode : (t.addNode n aliases).nodes.length = t.nodes.length + 1 := by
  simp [addNode]

theorem lt_length_addNode {k : NodeId} :
    k < (t.addNode n aliases).nodes.length ↔ k < t.nodes.length ∨ k = t.nodes.length := by
  rw [length_addNode]
  exact Nat.lt_succ_iff_lt_or_eq

theorem node_addNode_new : (t.addNode n aliases).node t.nodes.length = n := by
  simp [node, addNode]

theorem node_addNode_of_ne {k : NodeId} (h : k ≠ t.nodes.length) :
    (t.addNode n aliases).node k = t.node k := by
  by_cases hk : k < t.nodes.length
  · simp [node, addNode, List.getElem?_append_left hk]
  · have beyond : t.nodes.length < k := Nat.lt_of_le_of_ne (Nat.le_of_not_lt hk) (Ne.symm h)
    rw [node_of_length_le t (Nat.le_of_lt beyond)]
    exact node_of_length_le _ (by rw [length_addNode]; exact beyond)

theorem node_addNode {k : NodeId} (h : k < t.nodes.length) :
    (t.addNode n aliases).node k = t.node k :=
  t.node_addNode_of_ne n aliases (Nat.ne_of_lt h)

theorem origin_addNode {k : NodeId} (h : k < t.nodes.length) :
    (t.addNode n aliases).origin k = t.origin k :=
  congrArg Node.origin (t.node_addNode n aliases h)

theorem origin_addNode_new : (t.addNode n aliases).origin t.nodes.length = n.origin :=
  congrArg Node.origin (t.node_addNode_new n aliases)

theorem aliasOf_addNode {k : NodeId} (h : k < t.nodes.length) :
    (t.addNode n aliases).aliasOf k = t.aliasOf k :=
  congrArg Node.aliasName (t.node_addNode n aliases h)

theorem aliasOf_addNode_new : (t.addNode n aliases).aliasOf t.nodes.length = n.aliasName :=
  congrArg Node.aliasName (t.node_addNode_new n aliases)

end Tree

end QueryForest
