import QueryForest.Proofs.Forest.History
import QueryForest.Proofs.Forest.Nesting

set_option autoImplicit false

/-!
# The order of joins

What the walk from a node of a tree lists, in every forest that callers can make, and in which
order; and that a query has one table for each node of this list.
-/

namespace QueryForest

open Sql (Select)

namespace Tree

/-- Whether a join of a query was written from a node: under its alias, in its way of joining and
with what it takes its rows from. -/
structure Writes (nested : NodeRef → Except QueryError Select) (t : Tree) (id : NodeId)
    (item : Sql.JoinItem) : Prop where
  aliasName : item.aliasName = some (t.aliasOf id)
  kind : ∃ edge, (t.node id).join = some edge ∧ item.kind = edge.kind
  source : (t.node id).tableSource nested = .ok item.source

variable {t : Tree} {nested : NodeRef → Except QueryError Select} {root : NodeId}

theorem writes_of_joinedPart {id : NodeId} {pair : Part × Sql.JoinItem}
    (h : t.joinedPart nested id = .ok pair) : t.Writes nested id pair.2 := by
  obtain ⟨hpart, hitem⟩ := joinedPart_ok h
  obtain ⟨-, -, -, -, -, -, source⟩ := part_ok hpart
  obtain ⟨edge, parent, on, hedge, -, -, same⟩ := joinItem_ok hitem
  exact ⟨by rw [same]; rfl, ⟨edge, hedge, by rw [same]⟩, by rw [same]; exact source⟩

/-- **A query has one table for each node of the walk, in the order of the walk.** -/
theorem Sound.select_tables (sound : t.Sound) (hroot : root < t.nodes.length) {s : Select}
    (h : t.select nested root = .ok s) :
    (∃ source, (t.node root).tableSource nested = .ok source ∧
      s.source = some ⟨source, some (t.aliasOf root)⟩) ∧
    List.Forall₂ (t.Writes nested) (t.walk root).tail s.joins := by
  obtain ⟨-, rootPart, joined, assembled, rfl, -⟩ := sound.select_ok hroot h
  obtain ⟨-, -, -, -, -, -, source⟩ := part_ok assembled.first
  refine ⟨⟨rootPart.source, source, rfl⟩, ?_⟩
  show List.Forall₂ (t.Writes nested) (t.walk root).tail (joined.map (·.2))
  rw [List.forall₂_map_right_iff]
  exact assembled.behind.imp fun _ _ => writes_of_joinedPart

/-- A join has its place behind the root when all joins are attached. -/
theorem Complete.below_root (complete : t.Complete) (linked : t.Linked) {join : NodeId}
    (isJoin : t.IsJoin join) : t.Below 0 join := by
  refine linked.below_root (fun join isJoin => ?_) isJoin
  obtain ⟨edge, hedge⟩ := Option.isSome_iff_exists.mp isJoin
  obtain ⟨parent, hparent⟩ := Option.isSome_iff_exists.mp (complete join edge hedge).1
  exact ⟨parent, by simp [parent?, hedge, hparent]⟩

end Tree

namespace Forest

/-- What the walk from a node lists, when `log` has the joins that were attached so far. -/
structure Walks (f : Forest) (log : List (NodeRef × NodeRef)) (i : TreeId) (t : Tree)
    (id : NodeId) : Prop where
  /-- The node comes first, and then the walks of the joins listed under its origin: no node is
  passed over. -/
  first : t.walk id = id :: (t.children (t.origin id)).flatMap t.walk
  /-- The joins of an origin are in the order in which they were attached, be it to the node of this
  origin or to one of its branches. -/
  siblings : ∀ origin, t.children origin
    = (log.filter fun a => a.1.tree = i ∧ t.origin a.2.node = origin).map (·.1.node)
  nodup : (t.walk id).Nodup
  /-- Behind the node all joins below its origin are listed, and nothing else. -/
  tail : ∀ join, join ∈ (t.walk id).tail ↔ t.Below (t.origin id) join
  /-- From the root or one of its branches these are all joins of the tree, once they are all
  attached. -/
  complete : t.incompleteJoin? = none → t.origin id = 0 →
    ∀ join, join ∈ (t.walk id).tail ↔ t.IsJoin join
  /-- Each join comes behind one of the nodes that it hangs under. -/
  parents : ∀ before join after, t.walk id = before ++ join :: after → before ≠ [] →
    ∃ u ∈ before, t.IsChild (t.origin u) join
  /-- What hangs below a listed node follows it without a gap. -/
  subtrees : ∀ v ∈ t.walk id, t.walk v <:+: t.walk id
  /-- A query has one table for each listed node, in this order. -/
  tables : ∀ s, f.select ⟨i, id⟩ = .ok s →
    (∃ source, (t.node id).tableSource f.select = .ok source ∧
      s.source = some ⟨source, some (t.aliasOf id)⟩) ∧
    List.Forall₂ (t.Writes f.select) (t.walk id).tail s.joins

/-- **After every run the walk from a node lists the node and then the joins below it, each once and
behind its parent, siblings in the order of their attachment; from the root it lists all joins of a
complete tree; and a query has its tables in this order.** -/
theorem walks_run {actions : List Action} (admitted : empty.admits actions) {i : TreeId} {t : Tree}
    (ht : (empty.run actions).tree? i = some t) {id : NodeId} (hid : id < t.nodes.length) :
    (empty.run actions).Walks (empty.attachments actions) i t id := by
  have sound : (empty.run actions).Sound := Reachable.sound ⟨actions, admitted, rfl⟩
  have tree := sound.tree i t ht
  have linked := tree.linked
  constructor
  case first => exact linked.walk_eq hid
  case siblings => exact children_run admitted ht
  case nodup => exact Tree.Linked.nodup_walk id
  case tail => exact fun join => linked.mem_tail_walk hid
  case complete =>
    intro complete top join
    rw [linked.mem_tail_walk hid, top]
    constructor
    · exact Tree.Below.isJoin
    · exact (Tree.incompleteJoin?_eq_none_iff.mp complete).below_root linked
  case parents => exact fun before join after => linked.walk_preceded
  case subtrees => exact fun v => linked.walk_infix hid
  case tables =>
    intro s h
    rw [@Sound.select_eq _ t ⟨i, id⟩ sound ht] at h
    exact tree.select_tables hid h

/-- A root with a branch. The join made last is attached first, to the branch, and the other one to
the root. -/
def branched : List Action :=
  [.call (.root {} ⟨"order", "Order", "orders"⟩ (some "o") {}),
    .call (.branch ⟨0, 0⟩),
    .call (.join ⟨0, 0⟩ ⟨"customer", "Customer", "customers"⟩ .inner (some "c")),
    .call (.join ⟨0, 0⟩ ⟨"item", "Item", "items"⟩ .left (some "i")),
    .call (.change ⟨0, 2⟩ (.onWith (.column "customer_id") (.column "id"))),
    .call (.change ⟨0, 3⟩ (.onWith (.column "id") (.column "order_id"))),
    .call (.attachTo ⟨0, 3⟩ ⟨0, 1⟩),
    .call (.attach ⟨0, 2⟩)]

theorem walks_run_branched : ∃ t, (empty.run branched).tree? 0 = some t ∧
    (empty.run branched).Walks (empty.attachments branched) 0 t 1 ∧ t.walk 1 = [1, 3, 2] ∧
    ∀ join, join ∈ [3, 2] ↔ t.IsJoin join := by
  let t := ((empty.run branched).tree? 0).get (by decide)
  have ht : (empty.run branched).tree? 0 = some t := (Option.some_get _).symm
  have walks := @walks_run branched (by decide) 0 t ht 1 (by decide)
  exact ⟨t, ht, walks, by decide, walks.complete (by decide) (by decide)⟩

end Forest

end QueryForest
