import QueryForest.Proofs.Tree.Select

set_option autoImplicit false

/-!
# What the query of a tree depends on

The query of a tree is made of its root and of the joins behind it in the walk, of the aliases of
their parents, and of nothing else but the mappings and whether the joins are complete. `Alike`
collects this, for two trees and a root in each of them. How a root is linked itself has no effect on
its query, so that a join and a branch of it can be such roots in one and the same tree; and what is
asked of a node has none on the queries that do not list the node.
-/

namespace QueryForest

open Sql (Select)

variable {nested nested' : NodeRef → Except QueryError Select}

/-- A node that has the branch of another one differs from it in its own link at most. -/
theorem Node.eq_of_branch {n n' : Node} (h : n'.branch = n.branch) :
    n' = { n with join := n'.join } := by
  calc n' = { n'.branch with join := n'.join } := rfl
    _ = { n.branch with join := n'.join } := by rw [h]

namespace Tree

variable {t t' : Tree} {root root' : NodeId}

theorem projection_alike {n n' : Node} (mappings : t'.mappings = t.mappings)
    (same : n'.branch = n.branch) (isRoot : Bool) :
    t'.projection n' isRoot = t.projection n isRoot := by
  have columns (e : Entity) : t'.columnsOf e = t.columnsOf e := by
    rw [columnsOf, columnsOf, mappings]
  have projected : t'.projection n isRoot = t.projection n isRoot := by
    unfold projection
    simp only [columns]
  rw [← projected, Node.eq_of_branch same]
  rfl

/-- What a node brings into a query depends on its own contents and the mappings. -/
theorem part_alike {n n' : Node} (mappings : t'.mappings = t.mappings)
    (same : n'.branch = n.branch) (inside : ∀ q ∈ n.queries, nested' q = nested q)
    (isRoot : Bool) : t'.part nested' n' isRoot = t.part nested n isRoot := by
  have shown : t'.shownColumns n' isRoot = t.shownColumns n isRoot := by
    rw [shownColumns, shownColumns, projection_alike mappings same, Node.eq_of_branch same]
  calc t'.part nested' n' isRoot
      = t.part nested' n isRoot := by
        rw [part_eq, part_eq, shown, Node.eq_of_branch same]
        rfl
    _ = t.part nested n isRoot := part_congr inside

/-- A join is written under the alias of its parent. -/
theorem joinItem_alike {n : Node} (aliasOf : ∀ id, t'.aliasOf id = t.aliasOf id)
    (source : Sql.TableSource) : t'.joinItem n source = t.joinItem n source := by
  have same : t'.aliasOf = t.aliasOf := funext aliasOf
  rw [joinItem, joinItem, same]

/-- Whether everything that makes up the query of one root also makes up that of another. -/
structure Alike (t t' : Tree) (root root' : NodeId) : Prop where
  mappings : t'.mappings = t.mappings
  incompleteJoin : t'.incompleteJoin? = t.incompleteJoin?
  aliasOf : ∀ id, t'.aliasOf id = t.aliasOf id
  /-- The roots are the same but for their own links. -/
  first : (t'.node root').branch = (t.node root).branch
  /-- Behind the roots stand the same nodes. -/
  behind : ∃ ids, t.walk root = root :: ids ∧ t'.walk root' = root' :: ids ∧
    ∀ v ∈ ids, t'.node v = t.node v

namespace Alike

theorem aliasOf_root (h : t.Alike t' root root') : t'.aliasOf root' = t.aliasOf root := by
  rw [Tree.aliasOf, Node.eq_of_branch h.first]
  rfl

theorem aliases (h : t.Alike t' root root') :
    (t'.walk root').map t'.aliasOf = (t.walk root).map t.aliasOf := by
  obtain ⟨ids, walk, walk', -⟩ := h.behind
  rw [walk, walk', List.map_cons, List.map_cons, h.aliasOf_root]
  exact congrArg _ (List.map_congr_left fun v _ => h.aliasOf v)

/-- What the nodes behind the roots bring, and their joins. -/
theorem joinedParts (h : t.Alike t' root root')
    (inside : ∀ v ∈ (t.walk root).tail, ∀ q ∈ (t.node v).queries, nested' q = nested q) :
    ((t'.walk root').drop 1).mapM (t'.joinedPart nested')
      = ((t.walk root).drop 1).mapM (t.joinedPart nested) := by
  obtain ⟨ids, walk, walk', nodes⟩ := h.behind
  rw [walk, List.tail_cons] at inside
  rw [walk, walk', List.drop_one, List.drop_one, List.tail_cons, List.tail_cons]
  refine Outcome.mapM_congr fun v hv => ?_
  have part : t'.part nested' (t.node v) false = t.part nested (t.node v) false :=
    part_alike h.mappings rfl (inside v hv) false
  unfold joinedPart
  simp only [nodes v hv, part, joinItem_alike h.aliasOf]

/-- **Roots that are alike have the same query, or fail with the same error**, when the queries that
are nested in them do. -/
theorem select (h : t.Alike t' root root')
    (inside : ∀ v ∈ t.walk root, ∀ q ∈ (t.node v).queries, nested' q = nested q) :
    t'.select nested' root' = t.select nested root := by
  have listed : root ∈ t.walk root := by
    obtain ⟨ids, walk, -, -⟩ := h.behind
    rw [walk]
    exact List.mem_cons_self
  -- The roots bring the same although their links may differ; behind them stand the same nodes.
  have part := part_alike h.mappings h.first (inside root listed) true
  have joined := h.joinedParts fun v hv => inside v (List.mem_of_mem_tail hv)
  have aliasName : (t'.node root').aliasName = (t.node root).aliasName := h.aliasOf_root
  have assembled : assemble (t'.node root') = assemble (t.node root) := by
    rw [Node.eq_of_branch h.first]
    rfl
  unfold Tree.select
  simp only [h.incompleteJoin, h.aliases, part, joined, aliasName, assembled]

end Alike

/-- A node and a branch of it are alike. -/
theorem Linked.alike_branch (linked : t.Linked) (hroot : root < t.nodes.length)
    (hroot' : root' < t.nodes.length) (copied : (t.node root').branch = (t.node root).branch) :
    t.Alike t root root' := by
  have origin : t.origin root' = t.origin root := by
    show (t.node root').branch.origin = (t.node root).branch.origin
    rw [copied]
  constructor
  case mappings => rfl
  case incompleteJoin => rfl
  case aliasOf => exact fun _ => rfl
  case first => exact copied
  case behind =>
    -- Both walks go on with what hangs under the common origin.
    refine ⟨_, linked.walk_eq hroot, ?_, fun _ _ => rfl⟩
    rw [linked.walk_eq hroot', origin]

/-! ## Edited nodes -/

/-- The joins and the aliases of the nodes decide whether the joins are complete. -/
theorem incompleteJoin?_modify {change : Node → Node} (join : ∀ n, (change n).join = n.join)
    (aliasName : ∀ n, (change n).aliasName = n.aliasName) (t : Tree) (id : NodeId) :
    (t.modify id change).incompleteJoin? = t.incompleteJoin? := by
  let gap (n : Node) : Option QueryError := do
    let gap ← (← n.join).gap?
    return .incompleteJoin n.aliasName gap
  have same (n : Node) : gap (change n) = gap n := by
    simp only [gap, join, aliasName]
  -- The first gap is looked for node by node, and the changed node has the gap that it had.
  have gaps : (t.nodes.modify id change).map gap = t.nodes.map gap := by
    refine List.ext_getElem? fun k => ?_
    rw [List.getElem?_map, List.getElem?_map, List.getElem?_modify]
    cases t.nodes[k]? with
    | none => rfl
    | some n =>
        by_cases here : id = k
        · simp [here, same]
        · simp [here]
  calc (t.nodes.modify id change).findSome? gap
      = ((t.nodes.modify id change).map gap).findSome? (·) := by rw [List.findSome?_map]; rfl
    _ = (t.nodes.map gap).findSome? (·) := by rw [gaps]
    _ = t.nodes.findSome? gap := by rw [List.findSome?_map]; rfl

theorem walk_modify {change : Node → Node} (origin : ∀ n, (change n).origin = n.origin) (t : Tree)
    (id root : NodeId) : (t.modify id change).walk root = t.walk root := by
  have origins : (t.modify id change).origin = t.origin :=
    funext (t.node_modify_same Node.origin origin id)
  unfold walk
  rw [origins, length_modify]
  rfl

theorem walk_edit (e : Edit) (t : Tree) (id root : NodeId) :
    (t.modify id e.apply).walk root = t.walk root :=
  walk_modify e.origin_apply t id root

/-- **An edit of a node that the walk does not list leaves the query of the root alone**, as long as
it leaves the joins alone. -/
theorem alike_edit {e : Edit} (join : ∀ n, (e.apply n).join = n.join) {id : NodeId}
    (hroot : root < t.nodes.length) (linked : t.Linked) (apart : id ∉ t.walk root) :
    t.Alike (t.modify id e.apply) root root := by
  have node {v : NodeId} (hv : v ∈ t.walk root) : (t.modify id e.apply).node v = t.node v := by
    refine t.node_modify_of_ne ?_ e.apply
    rintro rfl
    exact apart hv
  have walk := linked.walk_eq hroot
  constructor
  case mappings => rfl
  case incompleteJoin => exact incompleteJoin?_modify join e.aliasName_apply t id
  case aliasOf => exact aliasOf_edit e t id
  case first => exact congrArg Node.branch (node (walk ▸ List.mem_cons_self))
  case behind =>
    refine ⟨_, walk, (walk_edit e t id root).trans walk, fun v hv => node ?_⟩
    rw [walk]
    exact List.mem_cons_of_mem _ hv

end Tree

end QueryForest
