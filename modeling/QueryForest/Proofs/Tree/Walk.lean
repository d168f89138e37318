import QueryForest.Proofs.Graph.Preorder
import QueryForest.Proofs.Tree.Links

set_option autoImplicit false

/-!
# The walk of a tree

The walk from a node passes over nodes that it has seen. In a tree whose links are in order it never
has to: it is the node and then the walks of its joins, one after the other (`Linked.walk_eq`). From
this come the nodes that it lists (`Linked.mem_walk`), each once and behind its parent, with what
hangs below a node right after it (`Linked.walk_infix`).
-/

namespace QueryForest.Tree

open Relation (TransGen ReflTransGen)

variable {t : Tree} {v w : NodeId}

/-- Where the walk goes from a node. -/
def successors (t : Tree) (id : NodeId) : List NodeId := t.children (t.origin id)

namespace Linked

theorem edge_iff (h : t.Linked) : Graph.Edge t.successors v w ↔ t.IsChild (t.origin v) w :=
  h.mem_children

theorem successors_lt (h : t.Linked) (v : NodeId) : ∀ w ∈ t.successors v, w < t.nodes.length :=
  fun _ hw => (h.edge_iff.mp hw).isJoin.lt

/-- A path of the walk goes down the links. -/
theorem path_iff (h : t.Linked) :
    TransGen (Graph.Edge t.successors) v w ↔ t.Below (t.origin v) w := by
  constructor
  · intro path
    induction path with
    | single edge => exact TransGen.single (h.edge_iff.mp edge)
    | @tail b c before edge ih =>
        have own : t.origin b = b := h.origin_join b (Below.isJoin ih)
        exact TransGen.tail ih (own ▸ h.edge_iff.mp edge)
  · intro path
    induction path with
    | single child => exact TransGen.single (h.edge_iff.mpr child)
    | @tail b c before child ih =>
        have own : t.origin b = b := h.origin_join b (Below.isJoin before)
        exact TransGen.tail ih (h.edge_iff.mpr (own.symm ▸ child))

theorem reaches_walk (h : t.Linked) :
    Graph.Reaches t.successors v w ↔ w = v ∨ t.Below (t.origin v) w := by
  unfold Graph.Reaches
  rw [Relation.reflTransGen_iff_eq_or_transGen, h.path_iff]

/-- No node hangs below its own origin. -/
theorem not_below (h : t.Linked) (v : NodeId) : ¬ t.Below (t.origin v) v := by
  intro below
  have own : t.origin v = v := h.origin_join v below.isJoin
  rw [own] at below
  exact h.acyclic v below

theorem acyclic_walk (h : t.Linked) : Graph.Acyclic (Graph.Edge t.successors) :=
  fun v cycle => h.not_below v (h.path_iff.mp cycle)

/-- What hangs below two joins of one list hangs below one of them only. -/
theorem apart (h : t.Linked) {origin a b : NodeId} (ha : t.IsChild origin a)
    (hb : t.IsChild origin b) (other : a ≠ b) (wa : Graph.Reaches t.successors a w)
    (wb : Graph.Reaches t.successors b w) : False := by
  -- Going up is a function, so that of two joins above `w` one is above the other.
  have path {x y : NodeId} (hx : t.IsJoin x) (reach : Graph.Reaches t.successors x y) :
      ReflTransGen (Function.swap t.IsChild) y x := by
    refine ReflTransGen.swap _ _ ?_
    show ReflTransGen t.IsChild x y
    rcases h.reaches_walk.mp reach with rfl | below
    · exact ReflTransGen.refl
    · rw [h.origin_join x hx] at below
      exact below.to_reflTransGen
  have functional : Relator.RightUnique (Function.swap t.IsChild) :=
    fun _ _ _ up up' => IsChild.unique up up'
  -- If one join of the list were above the other, the list would be below its own join.
  have nested {x y : NodeId} (hx : t.IsChild origin x) (hy : t.IsChild origin y) (other : x ≠ y)
      (up : ReflTransGen (Function.swap t.IsChild) y x) : False := by
    rcases ReflTransGen.cases_head up with same | ⟨z, first, rest⟩
    · exact other same.symm
    · obtain rfl : z = origin := IsChild.unique first hy
      exact h.acyclic z (TransGen.head' hx (ReflTransGen.swap _ _ rest))
  rcases ReflTransGen.total_of_right_unique functional (path ha.isJoin wa) (path hb.isJoin wb) with
    up | up
  · exact nested hb ha (Ne.symm other) up
  · exact nested ha hb other up

/-- **The walk from a node is the node and the walks of its joins: no node is ever passed over.** -/
theorem walk_eq (h : t.Linked) (hv : v < t.nodes.length) :
    t.walk v = v :: (t.children (t.origin v)).flatMap t.walk := by
  refine Graph.preorder_eq_cons_flatMap h.successors_lt hv ?_ ?_
  · intro w edge path
    exact h.acyclic_walk.not_reaches edge path
  · refine (h.nodup_children (t.origin v)).imp_of_mem ?_
    intro a b ha hb other w wa wb
    exact h.apart (h.mem_children.mp ha) (h.mem_children.mp hb) other wa wb

theorem mem_walk (h : t.Linked) (hv : v < t.nodes.length) :
    w ∈ t.walk v ↔ w = v ∨ t.Below (t.origin v) w := by
  rw [← h.reaches_walk]
  exact Graph.mem_preorder_iff h.successors_lt hv

theorem nodup_walk (v : NodeId) : (t.walk v).Nodup := Graph.nodup_preorder v

/-- Each node that the walk lists comes behind one of its own parents. -/
theorem walk_preceded (h : t.Linked) {before after : List NodeId}
    (split : t.walk v = before ++ w :: after) (nonempty : before ≠ []) :
    ∃ u ∈ before, t.IsChild (t.origin u) w := by
  obtain ⟨u, hu, edge⟩ := Graph.preceded_preorder v before w after split nonempty
  exact ⟨u, hu, h.edge_iff.mp edge⟩

/-- Behind the first node the walk lists the joins below it. -/
theorem mem_tail_walk (h : t.Linked) (hv : v < t.nodes.length) :
    w ∈ (t.walk v).tail ↔ t.Below (t.origin v) w := by
  have mem := h.mem_walk (w := w) hv
  rw [h.walk_eq hv, List.mem_cons] at mem
  rw [h.walk_eq hv, List.tail_cons]
  constructor
  · intro listed
    rcases mem.mp (Or.inr listed) with rfl | below
    · have nodup := nodup_walk (t := t) w
      rw [h.walk_eq hv] at nodup
      exact absurd listed (List.nodup_cons.mp nodup).1
    · exact below
  · intro below
    rcases mem.mpr (Or.inr below) with rfl | listed
    · exact absurd below (h.not_below w)
    · exact listed

/-- What hangs below a node that the walk lists follows this node without a gap. -/
theorem walk_infix (h : t.Linked) (hv : v < t.nodes.length) (listed : w ∈ t.walk v) :
    t.walk w <:+: t.walk v := by
  obtain ⟨bound, enough⟩ : ∃ n, (t.walk v).length ≤ n := ⟨_, Nat.le_refl _⟩
  induction bound generalizing v with
  | zero =>
      rw [h.walk_eq hv] at enough
      exact absurd enough (by simp)
  | succ bound ih =>
      have unfolded := h.walk_eq hv
      rw [unfolded, List.mem_cons] at listed
      rcases listed with rfl | listed
      · exact List.infix_rfl
      · obtain ⟨c, hc, listed⟩ := List.mem_flatMap.mp listed
        have hlt : c < t.nodes.length := h.successors_lt v c hc
        have shorter : (t.walk c).length < (t.walk v).length :=
          Graph.length_preorder_lt h.successors_lt h.acyclic_walk hv hc
        have part : t.walk c <:+: (t.children (t.origin v)).flatMap t.walk :=
          List.infix_of_mem_flatten (List.mem_map_of_mem hc)
        rw [unfolded]
        exact (ih hlt listed (by omega)).trans (part.trans (List.suffix_cons v _).isInfix)

/-- When all joins are attached, each of them hangs below the root. -/
theorem below_root (h : t.Linked) (attached : ∀ join, t.IsJoin join → ∃ p, t.parent? join = some p)
    {join : NodeId} (isJoin : t.IsJoin join) : t.Below 0 join := by
  have small := isJoin.lt
  revert isJoin
  refine Graph.induction_down h.successors_lt h.acyclic_walk (fun v hv ih isJoin => ?_) small
  obtain ⟨p, hp⟩ := attached v isJoin
  have child : t.IsChild (t.origin p) v := ⟨p, hp, rfl⟩
  -- Going up from a join ends at the root, or goes on from another join, which is attached too.
  rcases h.isChild_origin child with root | above
  · exact TransGen.single (root ▸ child)
  · have edge : v ∈ t.successors (t.origin p) := by
      refine h.edge_iff.mpr ?_
      rwa [h.origin_origin p (h.parent_lt v p hp)]
    exact TransGen.tail (ih _ (h.isChild_lt child) edge above) child

end Linked

end QueryForest.Tree
