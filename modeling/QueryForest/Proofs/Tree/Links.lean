import QueryForest.Proofs.Graph.Search
import QueryForest.Proofs.Tree.Nodes

set_option autoImplicit false

/-!
# The links of a tree

A join is attached to a node, and hangs under the origin of this node: a node and its branches
share their joins. `IsChild` reads this off the joins themselves, and `Below` follows it to any
depth. The links of the tree record the same once more, in the order of attachment.

`Linked` is what holds of the links of every tree that calls can make. It is kept when a node is
added (`Linked.append`), when a node is changed in other ways (`Linked.congr`) and when a join is
attached (`Linked.link`). That no join comes to hang below itself is left to the search of `attach`,
which finds out whether one origin hangs below another (`Linked.reaches_iff`).
-/

namespace QueryForest.Tree

open Relation (TransGen ReflTransGen)

/-! ## Joins and their parents -/

/-- Whether a node is a join. -/
def IsJoin (t : Tree) (id : NodeId) : Prop := (t.node id).join.isSome

instance (t : Tree) (id : NodeId) : Decidable (t.IsJoin id) :=
  inferInstanceAs (Decidable ((t.node id).join.isSome = true))

/-- The node that a join is attached to. -/
def parent? (t : Tree) (id : NodeId) : Option NodeId := (t.node id).join.bind (·.parent)

/-- Whether a join is attached to a node of an origin. -/
def IsChild (t : Tree) (origin join : NodeId) : Prop :=
  ∃ parent, t.parent? join = some parent ∧ t.origin parent = origin

/-- Whether a join hangs under an origin at any depth: its parent has this origin, or the origin of
a join that does. -/
def Below (t : Tree) : NodeId → NodeId → Prop := TransGen t.IsChild

/-- What holds of the nodes and links of every tree that calls can make. -/
structure Linked (t : Tree) : Prop where
  nonempty : 0 < t.nodes.length
  root_origin : t.origin 0 = 0
  root_not_join : ¬ t.IsJoin 0
  origin_lt : ∀ id < t.nodes.length, t.origin id < t.nodes.length
  origin_origin : ∀ id < t.nodes.length, t.origin (t.origin id) = t.origin id
  /-- Joins are no branches. -/
  origin_join : ∀ id, t.IsJoin id → t.origin id = id
  /-- Nodes that are no branches are joins, up to the root. -/
  join_of_origin : ∀ id < t.nodes.length, t.origin id = id → id = 0 ∨ t.IsJoin id
  reference_lt : ∀ id edge, (t.node id).join = some edge → edge.reference < t.nodes.length
  parent_lt : ∀ id parent, t.parent? id = some parent → parent < t.nodes.length
  /-- The links are the attached joins under the origins of their parents. -/
  mem_links : ∀ origin join, (origin, join) ∈ t.links ↔ t.IsChild origin join
  nodup_links : (t.links.map (·.2)).Nodup
  acyclic : Graph.Acyclic t.IsChild

variable {t t' : Tree}

theorem isJoin_of_parent {id parent : NodeId} (h : t.parent? id = some parent) : t.IsJoin id := by
  obtain ⟨edge, hedge, -⟩ := Option.bind_eq_some_iff.mp h
  simp [IsJoin, hedge]

theorem IsChild.isJoin {origin join : NodeId} (h : t.IsChild origin join) : t.IsJoin join := by
  obtain ⟨parent, hparent, -⟩ := h
  exact isJoin_of_parent hparent

theorem IsJoin.lt {id : NodeId} (h : t.IsJoin id) : id < t.nodes.length := t.lt_of_join h

/-- A join hangs directly under one origin only. -/
theorem IsChild.unique {a b join : NodeId} (ha : t.IsChild a join) (hb : t.IsChild b join) :
    a = b := by
  obtain ⟨p, hp, rfl⟩ := ha
  obtain ⟨q, hq, rfl⟩ := hb
  rw [hp] at hq
  exact congrArg t.origin (Option.some.inj hq)

theorem Below.isJoin {origin join : NodeId} (h : t.Below origin join) : t.IsJoin join := by
  cases h with
  | single edge => exact edge.isJoin
  | tail _ edge => exact edge.isJoin

theorem mem_children {origin join : NodeId} :
    join ∈ t.children origin ↔ (origin, join) ∈ t.links := by
  simp [children]

namespace Linked

theorem mem_children (h : t.Linked) {origin join : NodeId} :
    join ∈ t.children origin ↔ t.IsChild origin join := by
  rw [Tree.mem_children, h.mem_links]

/-- A join is listed once, and under one origin only. -/
theorem nodup_children (h : t.Linked) (origin : NodeId) : (t.children origin).Nodup := by
  have part : (t.children origin).Sublist (t.links.map (·.2)) := List.Sublist.map _ List.filter_sublist
  exact part.nodup h.nodup_links

theorem count_children (h : t.Linked) {origin join : NodeId} :
    (t.children origin).count join = 1 ↔ t.IsChild origin join := by
  rw [← h.mem_children]
  constructor
  · intro once
    exact List.count_pos_iff.mp (once ▸ Nat.one_pos)
  · intro listed
    have most : (t.children origin).count join ≤ 1 :=
      List.nodup_iff_count.mp (h.nodup_children origin) join
    exact Nat.le_antisymm most (List.count_pos_iff.mpr listed)

theorem isChild_lt (h : t.Linked) {origin join : NodeId} (child : t.IsChild origin join) :
    origin < t.nodes.length := by
  obtain ⟨parent, hparent, rfl⟩ := child
  exact h.origin_lt parent (h.parent_lt join parent hparent)

/-- Above a join hangs the root or another join. -/
theorem isChild_origin (h : t.Linked) {origin join : NodeId} (child : t.IsChild origin join) :
    origin = 0 ∨ t.IsJoin origin := by
  obtain ⟨parent, hparent, rfl⟩ := child
  have hp := h.parent_lt join parent hparent
  exact h.join_of_origin _ (h.origin_lt parent hp) (h.origin_origin parent hp)

/-! ## Trees that share their links -/

/-- The links do not depend on anything else that a node holds. -/
theorem congr (h : t.Linked) (length : t'.nodes.length = t.nodes.length)
    (origin : ∀ id, t'.origin id = t.origin id)
    (reference : ∀ id, (t'.node id).join.map (·.reference) = (t.node id).join.map (·.reference))
    (parent : ∀ id, t'.parent? id = t.parent? id) (links : t'.links = t.links) : t'.Linked := by
  -- All that `Linked` speaks of is the same function in both trees.
  have join : t'.IsJoin = t.IsJoin := by
    funext id
    have := congrArg Option.isSome (reference id)
    simp only [Option.isSome_map] at this
    simp [IsJoin, this]
  have origins : t'.origin = t.origin := funext origin
  have child : t'.IsChild = t.IsChild := by
    funext a b
    simp [IsChild, parent, origin]
  constructor
  · simpa [length] using h.nonempty
  · simpa [origin] using h.root_origin
  · simpa [join] using h.root_not_join
  · simpa [origins, length] using h.origin_lt
  · simpa [origins, length] using h.origin_origin
  · simpa [origins, join] using h.origin_join
  · simpa [origins, length, join] using h.join_of_origin
  · intro id edge hedge
    have same := reference id
    rw [hedge] at same
    obtain ⟨edge', hedge', heq⟩ := Option.map_eq_some_iff.mp same.symm
    have small := h.reference_lt id edge' hedge'
    have heq : edge'.reference = edge.reference := heq
    rwa [heq, ← length] at small
  · simpa [parent, length] using h.parent_lt
  · simpa [links, child] using h.mem_links
  · simpa [links] using h.nodup_links
  · simpa [child] using h.acyclic

end Linked

/-! ## Added nodes -/

/-- A node that is added to a tree: a join of its own that is not attached, or a branch. -/
def Fits (t : Tree) (n : Node) : Prop :=
  (n.origin = t.nodes.length ∧
    ∃ edge, n.join = some edge ∧ edge.reference < t.nodes.length ∧ edge.parent = none) ∨
  (n.join = none ∧ ∃ id < t.nodes.length, n.origin = t.origin id)

variable {n : Node}

theorem Fits.parent (fits : Fits t n) (aliases : AliasTable) :
    (t.addNode n aliases).parent? = t.parent? := by
  funext k
  by_cases hk : k = t.nodes.length
  · subst hk
    have none : n.join.bind (·.parent) = none := by
      rcases fits with ⟨-, edge, hedge, -, free⟩ | ⟨none, -⟩
      · simp [hedge, free]
      · simp [none]
    rw [parent?, node_addNode_new, none, parent?, t.node_of_length_le (Nat.le_refl _)]
    rfl
  · rw [parent?, node_addNode_of_ne t n aliases hk, parent?]

theorem Fits.isChild (fits : Fits t n) (h : t.Linked) (aliases : AliasTable) :
    (t.addNode n aliases).IsChild = t.IsChild := by
  funext a b
  refine propext (exists_congr fun p => ?_)
  rw [fits.parent]
  exact and_congr_right fun hp => by rw [origin_addNode t n aliases (h.parent_lt b p hp)]

theorem isJoin_addNode {k : NodeId} (hk : k < t.nodes.length) (aliases : AliasTable) :
    (t.addNode n aliases).IsJoin k ↔ t.IsJoin k := by
  rw [IsJoin, IsJoin, node_addNode t n aliases hk]

theorem Fits.origin_lt (fits : Fits t n) (h : t.Linked) : n.origin < t.nodes.length + 1 := by
  rcases fits with ⟨own, -⟩ | ⟨-, id, hid, shared⟩
  · rw [own]
    exact Nat.lt_succ_self _
  · rw [shared]
    exact Nat.lt_succ_of_lt (h.origin_lt id hid)

theorem Linked.append (h : t.Linked) (fits : Fits t n) (aliases : AliasTable) :
    (t.addNode n aliases).Linked := by
  -- The children stay the same, so that only the fields about the new node itself have to be seen
  -- to: it is a join of its own, or it shares the origin of an old node.
  have origin {k : NodeId} (hk : k < t.nodes.length) := origin_addNode t n aliases hk
  have origin_new := origin_addNode_new t n aliases
  constructor
  case nonempty => simp
  case root_origin => rw [origin h.nonempty, h.root_origin]
  case root_not_join =>
    rw [isJoin_addNode h.nonempty]
    exact h.root_not_join
  case origin_lt =>
    intro k hk
    rw [length_addNode]
    rcases (lt_length_addNode t n aliases).mp hk with hk | rfl
    · rw [origin hk]
      exact Nat.lt_succ_of_lt (h.origin_lt k hk)
    · rw [origin_new]
      exact fits.origin_lt h
  case origin_origin =>
    intro k hk
    rcases (lt_length_addNode t n aliases).mp hk with hk | rfl
    · rw [origin hk, origin (h.origin_lt k hk), h.origin_origin k hk]
    · rw [origin_new]
      rcases fits with ⟨own, -⟩ | ⟨-, id, hid, shared⟩
      · rw [own, origin_new, own]
      · rw [shared, origin (h.origin_lt id hid), h.origin_origin id hid]
  case origin_join =>
    intro k hk
    rcases (lt_length_addNode t n aliases).mp hk.lt with hk' | rfl
    · rw [origin hk', h.origin_join k ((isJoin_addNode hk' aliases).mp hk)]
    · rw [origin_new]
      rcases fits with ⟨own, -⟩ | ⟨none, -⟩
      · exact own
      · rw [IsJoin, node_addNode_new, none] at hk
        exact absurd hk (by decide)
  case join_of_origin =>
    intro k hk own
    rcases (lt_length_addNode t n aliases).mp hk with hk | rfl
    · rw [isJoin_addNode hk]
      exact h.join_of_origin k hk (origin hk ▸ own)
    · rcases fits with ⟨-, edge, hedge, -⟩ | ⟨-, id, hid, shared⟩
      · exact Or.inr (by simp [IsJoin, node_addNode_new, hedge])
      · rw [origin_new, shared] at own
        exact absurd (own ▸ h.origin_lt id hid) (Nat.lt_irrefl _)
  case reference_lt =>
    intro k edge hedge
    rw [length_addNode]
    by_cases hk : k = t.nodes.length
    · subst hk
      rw [node_addNode_new] at hedge
      rcases fits with ⟨-, edge', hedge', small, -⟩ | ⟨none, -⟩
      · rw [Option.some.inj (hedge.symm.trans hedge')]
        exact Nat.lt_succ_of_lt small
      · exact absurd (hedge.symm.trans none) (Option.some_ne_none edge)
    · rw [node_addNode_of_ne t n aliases hk] at hedge
      exact Nat.lt_succ_of_lt (h.reference_lt k edge hedge)
  case parent_lt =>
    intro k p hp
    rw [fits.parent] at hp
    rw [length_addNode]
    exact Nat.lt_succ_of_lt (h.parent_lt k p hp)
  case mem_links =>
    rw [fits.isChild h]
    exact h.mem_links
  case nodup_links => exact h.nodup_links
  case acyclic =>
    rw [fits.isChild h]
    exact h.acyclic

/-! ## The search -/

/-- The search of `attach` finds out whether one origin is another or hangs below it. -/
theorem Linked.reaches_iff (h : t.Linked) {join parent : NodeId} :
    t.reaches join parent = true
      ↔ ReflTransGen t.IsChild (t.origin join) (t.origin parent) := by
  -- The search goes along the links with origins at both ends. A join is its own origin, so that
  -- these are the links themselves.
  let successors (origin : NodeId) : List NodeId := (t.children origin).map t.origin
  let edges : List (NodeId × NodeId) := t.links.map fun link => (link.1, t.origin link.2)
  have listed (v : NodeId) : successors v = (edges.filter fun edge => edge.1 = v).map (·.2) := by
    simp [successors, edges, children, List.filter_map, Function.comp_def]
  have edge (v w : NodeId) : Graph.Edge successors v w ↔ t.IsChild v w := by
    constructor
    · intro hw
      obtain ⟨join, hjoin, rfl⟩ := List.mem_map.mp hw
      have child := h.mem_children.mp hjoin
      rwa [h.origin_join join child.isJoin]
    · intro child
      exact List.mem_map.mpr ⟨w, h.mem_children.mpr child, h.origin_join w child.isJoin⟩
  have same : Graph.Edge successors = t.IsChild := by
    funext v w
    exact propext (edge v w)
  -- One pop for the start and one for each link.
  have enough : [t.origin join].length + (Graph.unused edges []).length ≤ t.links.length + 1 := by
    rw [Nat.add_comm]
    refine Nat.add_le_add_right ?_ 1
    exact Nat.le_trans (List.length_filter_le _ _) (Nat.le_of_eq (List.length_map _))
  rw [reaches, Graph.search_iff edges listed enough (by simp [Graph.Fenced]) (by simp)]
  simp [Graph.Awaited, Graph.Reaches, same]

/-! ## Attached joins -/

/-- Attaches a join to a parent. -/
def setParent (parent : NodeId) (n : Node) : Node :=
  { n with join := n.join.map fun edge => { edge with parent := some parent } }

variable {join parent : NodeId}

/-- A join and its parent in the tree, and the link between them. -/
def addLink (t : Tree) (join parent : NodeId) : Tree :=
  { t.modify join (setParent parent) with links := t.links ++ [(t.origin parent, join)] }

theorem origin_addLink (k : NodeId) : (addLink t join parent).origin k = t.origin k := by
  show ((t.modify join (setParent parent)).node k).origin = (t.node k).origin
  rw [node_modify]
  split <;> rfl

theorem node_addLink_of_ne {k : NodeId} (h : k ≠ join) :
    (addLink t join parent).node k = t.node k :=
  t.node_modify_of_ne h (setParent parent)

theorem node_addLink (isJoin : t.IsJoin join) :
    (addLink t join parent).node join = setParent parent (t.node join) :=
  t.node_modify_self isJoin.lt (setParent parent)

theorem isJoin_addLink (k : NodeId) : (addLink t join parent).IsJoin k ↔ t.IsJoin k := by
  show ((t.modify join (setParent parent)).node k).join.isSome ↔ _
  rw [node_modify]
  split
  · simp [setParent, IsJoin]
  · rfl

theorem parent_addLink (isJoin : t.IsJoin join) (k : NodeId) :
    (addLink t join parent).parent? k = if k = join then some parent else t.parent? k := by
  split
  · next same =>
    subst same
    obtain ⟨edge, hedge⟩ := Option.isSome_iff_exists.mp isJoin
    rw [parent?, node_addLink isJoin, setParent, hedge]
    rfl
  · next other => rw [parent?, node_addLink_of_ne other, parent?]

/-- Attaching a join adds one link to those there were. -/
theorem isChild_addLink (isJoin : t.IsJoin join) (free : t.parent? join = none) (a b : NodeId) :
    (addLink t join parent).IsChild a b
      ↔ t.IsChild a b ∨ (a = t.origin parent ∧ b = join) := by
  unfold IsChild
  rw [parent_addLink isJoin]
  simp only [origin_addLink]
  constructor
  · rintro ⟨p, hp, rfl⟩
    split at hp
    · next same =>
      obtain rfl := Option.some.inj hp
      exact Or.inr ⟨rfl, same⟩
    · exact Or.inl ⟨p, hp, rfl⟩
  · rintro (⟨p, hp, rfl⟩ | ⟨rfl, rfl⟩)
    · have other : b ≠ join := by
        rintro rfl
        exact absurd (free.symm.trans hp) (by simp)
      exact ⟨p, by rw [if_neg other, hp], rfl⟩
    · exact ⟨parent, by rw [if_pos rfl], rfl⟩

/-- Attaching keeps the links in order as long as the join is not attached already and its parent
does not hang below it. -/
theorem Linked.link (h : t.Linked) (isJoin : t.IsJoin join) (free : t.parent? join = none)
    (hparent : parent < t.nodes.length) (apart : t.reaches join parent = false) :
    (addLink t join parent).Linked := by
  have origins : (addLink t join parent).origin = t.origin := funext origin_addLink
  have joins : (addLink t join parent).IsJoin = t.IsJoin :=
    funext fun k => propext (isJoin_addLink k)
  have length : (addLink t join parent).nodes.length = t.nodes.length :=
    t.length_modify join (setParent parent)
  have children (a b : NodeId) := @isChild_addLink t join parent isJoin free a b
  have unlinked (a : NodeId) : ¬ t.IsChild a join := by
    rintro ⟨p, hp, -⟩
    exact absurd (free.symm.trans hp) (by simp)
  constructor
  case nonempty => simpa [length] using h.nonempty
  case root_origin => simpa [origins] using h.root_origin
  case root_not_join => simpa [joins] using h.root_not_join
  case origin_lt => simpa [origins, length] using h.origin_lt
  case origin_origin => simpa [origins, length] using h.origin_origin
  case origin_join => simpa [origins, joins] using h.origin_join
  case join_of_origin => simpa [origins, joins, length] using h.join_of_origin
  case reference_lt =>
    intro k edge hedge
    rw [length]
    by_cases other : k = join
    · subst other
      rw [node_addLink isJoin] at hedge
      obtain ⟨edge', hedge', rfl⟩ := Option.map_eq_some_iff.mp hedge
      exact h.reference_lt k edge' hedge'
    · rw [node_addLink_of_ne other] at hedge
      exact h.reference_lt k edge hedge
  case parent_lt =>
    intro k p hp
    rw [length]
    rw [parent_addLink isJoin] at hp
    split at hp
    · obtain rfl := Option.some.inj hp
      exact hparent
    · exact h.parent_lt k p hp
  case mem_links =>
    intro a b
    show (a, b) ∈ t.links ++ [(t.origin parent, join)] ↔ _
    rw [children, List.mem_append, h.mem_links, List.mem_singleton, Prod.mk.injEq]
  case nodup_links =>
    show ((t.links ++ [(t.origin parent, join)]).map (·.2)).Nodup
    rw [List.map_append, List.nodup_append]
    refine ⟨h.nodup_links, by simp, ?_⟩
    rintro b old _ new rfl
    obtain ⟨⟨a, b⟩, linked, rfl⟩ := List.mem_map.mp old
    have same : b = join := List.mem_singleton.mp new
    exact unlinked a (same ▸ (h.mem_links a b).mp linked)
  case acyclic =>
    -- A cycle over the new link would lead from the join to the origin of its parent, which is what
    -- the search has looked for.
    refine h.acyclic.insert (fun a b => (children a b).mp) fun path => ?_
    have below : t.reaches join parent = true := by
      rw [h.reaches_iff, h.origin_join join isJoin]
      exact path
    exact absurd below (by rw [apart]; decide)

end QueryForest.Tree
