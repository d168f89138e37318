import QueryForest.Proofs.Tree.Growth
import QueryForest.Proofs.Tree.Parts
import QueryForest.Proofs.Tree.Walk

set_option autoImplicit false

/-!
# The query of a sound tree

In a sound tree the walk never meets an alias twice (`Sound.firstRepeated?_walk`), and in a complete
one every join of the walk has a parent and a condition (`Sound.exists_joinItem`). So the query of a
tree fails for its joins and for the parts of its nodes only (`Sound.select_error`), and it is made
of the parts of the nodes in the order of the walk (`select_ok`).
-/

namespace QueryForest.Tree

open Sql (Select)

variable {t : Tree} {nested : NodeRef → Except QueryError Select} {root : NodeId}

/-! ## Complete trees -/

/-- Whether every join is attached and has a condition. -/
def Complete (t : Tree) : Prop :=
  ∀ id edge, (t.node id).join = some edge → edge.parent.isSome ∧ edge.conditions ≠ []

theorem gap?_eq_none_iff {edge : JoinEdge} :
    edge.gap? = none ↔ edge.parent.isSome ∧ edge.conditions ≠ [] := by
  unfold JoinEdge.gap?
  cases edge.parent with
  | none => simp
  | some parent => simp

theorem incompleteJoin?_eq_none_iff : t.incompleteJoin? = none ↔ t.Complete := by
  unfold incompleteJoin? Complete
  rw [List.findSome?_eq_none_iff]
  constructor
  · intro none id edge hedge
    have hid : id < t.nodes.length := t.lt_of_join (by simp [hedge])
    have found := none (t.node id) (t.node_mem hid)
    refine gap?_eq_none_iff.mp ?_
    cases gap : edge.gap? with
    | none => rfl
    | some g => exact absurd found (by simp [hedge, gap])
  · intro complete n hn
    obtain ⟨id, -, rfl⟩ := (t.mem_nodes_iff).mp hn
    cases hedge : (t.node id).join with
    | none => rfl
    | some edge => simp [gap?_eq_none_iff.mpr (complete id edge hedge)]

theorem incompleteJoin?_some {e : QueryError} (h : t.incompleteJoin? = some e) :
    ∃ aliasName gap, e = .incompleteJoin aliasName gap := by
  obtain ⟨n, -, found⟩ := List.exists_of_findSome?_eq_some h
  obtain ⟨edge, -, found⟩ := Option.bind_eq_some_iff.mp found
  obtain ⟨gap, -, found⟩ := Option.bind_eq_some_iff.mp found
  exact ⟨n.aliasName, gap, (Option.some.inj found).symm⟩

/-! ## Joins -/

theorem joinItem_ok {n : Node} {source : Sql.TableSource} {item : Sql.JoinItem}
    (h : t.joinItem n source = .ok item) : ∃ edge parent on, n.join = some edge ∧
      edge.parent = some parent ∧ n.onExpr (t.aliasOf parent) edge.conditions = some on ∧
      item = ⟨edge.kind, source, some n.aliasName, on⟩ := by
  unfold joinItem at h
  split at h
  · exact absurd h (by simp)
  · next edge hedge =>
    split at h
    · exact absurd h (by simp)
    · next parent hparent =>
      split at h
      · exact absurd h (by simp)
      · next on hon => exact ⟨edge, parent, on, hedge, hparent, hon, (Except.ok.inj h).symm⟩

/-- A join of a complete tree can be written. -/
theorem Complete.exists_joinItem (complete : t.Complete) {id : NodeId} (isJoin : t.IsJoin id)
    (source : Sql.TableSource) : ∃ item, t.joinItem (t.node id) source = .ok item := by
  obtain ⟨edge, hedge⟩ := Option.isSome_iff_exists.mp isJoin
  obtain ⟨hasParent, conditions⟩ := complete id edge hedge
  obtain ⟨parent, hparent⟩ := Option.isSome_iff_exists.mp hasParent
  obtain ⟨c, rest, split⟩ := List.exists_cons_of_ne_nil conditions
  have on : ∃ on, (t.node id).onExpr (t.aliasOf parent) edge.conditions = some on := by
    rw [split]
    exact ⟨_, rfl⟩
  obtain ⟨on, hon⟩ := on
  refine ⟨⟨edge.kind, source, some (t.node id).aliasName, on⟩, ?_⟩
  simp only [joinItem, hedge, hparent, hon]

theorem joinedPart_ok {id : NodeId} {pair : Part × Sql.JoinItem}
    (h : t.joinedPart nested id = .ok pair) : t.part nested (t.node id) false = .ok pair.1 ∧
      t.joinItem (t.node id) pair.1.source = .ok pair.2 := by
  obtain ⟨part, hpart, h⟩ := Outcome.bind_ok h
  obtain ⟨item, hitem, h⟩ := Outcome.bind_ok h
  obtain rfl := Except.ok.inj h
  exact ⟨hpart, hitem⟩

/-! ## The walk of a sound tree -/

namespace Sound

/-- The nodes of a walk have different origins. -/
theorem origin_inj (h : t.Sound) (hroot : root < t.nodes.length) {a b : NodeId}
    (ha : a ∈ t.walk root) (hb : b ∈ t.walk root) (same : t.origin a = t.origin b) : a = b := by
  have linked := h.linked
  -- A join below the root is its own origin, and the root does not hang below itself.
  have join {b : NodeId} (below : t.Below (t.origin root) b) : t.origin root ≠ t.origin b := by
    intro same
    rw [linked.origin_join b below.isJoin] at same
    exact linked.acyclic b (same ▸ below)
  rcases (linked.mem_walk hroot).mp ha with rfl | belowA
  · rcases (linked.mem_walk hroot).mp hb with rfl | belowB
    · rfl
    · exact absurd same (join belowB)
  · rcases (linked.mem_walk hroot).mp hb with rfl | belowB
    · exact absurd same.symm (join belowA)
    · rwa [linked.origin_join a belowA.isJoin, linked.origin_join b belowB.isJoin] at same

theorem walk_lt (h : t.Sound) (hroot : root < t.nodes.length) {a : NodeId}
    (ha : a ∈ t.walk root) : a < t.nodes.length := by
  rcases (h.linked.mem_walk hroot).mp ha with rfl | below
  · exact hroot
  · exact below.isJoin.lt

/-- **The nodes of a walk have different aliases.** -/
theorem nodup_aliases (h : t.Sound) (hroot : root < t.nodes.length) :
    ((t.walk root).map t.aliasOf).Nodup := by
  refine List.Nodup.map_on (fun a ha b hb same => ?_) (Linked.nodup_walk root)
  have lt {c : NodeId} (hc : c ∈ t.walk root) : c < t.nodes.length := h.walk_lt hroot hc
  exact h.origin_inj hroot ha hb ((h.named.aliasOf_inj h.linked (lt ha) (lt hb)).mp same)

theorem firstRepeated?_walk (h : t.Sound) (hroot : root < t.nodes.length) :
    Text.firstRepeated? [] ((t.walk root).map t.aliasOf) = none :=
  Text.firstRepeated?_eq_none_iff.mpr ⟨h.nodup_aliases hroot, fun _ _ => List.not_mem_nil⟩

/-- Behind the first node the walk lists joins. -/
theorem isJoin_of_mem_tail (h : t.Sound) (hroot : root < t.nodes.length) {a : NodeId}
    (ha : a ∈ (t.walk root).tail) : t.IsJoin a :=
  ((h.linked.mem_tail_walk hroot).mp ha).isJoin

theorem walk_cons (h : t.Sound) (hroot : root < t.nodes.length) :
    t.walk root = root :: (t.walk root).tail := by
  rw [h.linked.walk_eq hroot, List.tail_cons]

theorem ne_of_mem_tail (h : t.Sound) (hroot : root < t.nodes.length) {a : NodeId}
    (ha : a ∈ (t.walk root).tail) : a ≠ root := by
  rintro rfl
  have nodup := Linked.nodup_walk (t := t) a
  rw [h.walk_cons hroot] at nodup
  exact (List.nodup_cons.mp nodup).1 ha

end Sound

/-! ## The query -/

/-- The query of some parts, unless they bring no columns. -/
def finish (t : Tree) (root : NodeId) (rootPart : Part) (joined : List (Part × Sql.JoinItem)) :
    Except QueryError Select :=
  if (assemble (t.node root) rootPart joined).columns.isEmpty then
    .error (.emptyProjection (t.aliasOf root))
  else .ok (assemble (t.node root) rootPart joined)

/-- The steps of `select` behind its checks. -/
def write (nested : NodeRef → Except QueryError Select) (t : Tree) (root : NodeId) :
    Except QueryError Select := do
  let rootPart ← t.part nested (t.node root) true
  let joined ← (t.walk root).tail.mapM (t.joinedPart nested)
  t.finish root rootPart joined

theorem write_of_select {s : Select} (h : t.select nested root = .ok s) :
    t.write nested root = .ok s := by
  unfold select at h
  split at h
  · exact absurd h (by simp)
  · exact absurd h (by simp)
  · unfold write
    rw [← List.drop_one]
    exact h

/-- In a sound tree the check of the aliases finds nothing. -/
theorem Sound.select_eq (h : t.Sound) (hroot : root < t.nodes.length) :
    t.select nested root = match t.incompleteJoin? with
      | some e => .error e
      | none => t.write nested root := by
  unfold select
  rw [h.firstRepeated?_walk hroot]
  cases t.incompleteJoin? with
  | some e => rfl
  | none =>
      unfold write
      rw [← List.drop_one]
      rfl

/-- The parts that a query is made of: one of the root, and one of each join behind it in the walk.
-/
structure Assembled (nested : NodeRef → Except QueryError Select) (t : Tree) (root : NodeId)
    (rootPart : Part) (joined : List (Part × Sql.JoinItem)) : Prop where
  first : t.part nested (t.node root) true = .ok rootPart
  behind : List.Forall₂ (fun id pair => t.joinedPart nested id = .ok pair) (t.walk root).tail joined

theorem write_ok {s : Select} (h : t.write nested root = .ok s) : ∃ rootPart joined,
    t.Assembled nested root rootPart joined ∧ s = assemble (t.node root) rootPart joined ∧
      s.columns ≠ [] := by
  obtain ⟨rootPart, hroot, h⟩ := Outcome.bind_ok h
  obtain ⟨joined, hjoined, h⟩ := Outcome.bind_ok h
  unfold finish at h
  split at h
  · exact absurd h (by simp)
  · next columns =>
    obtain rfl := Except.ok.inj h
    refine ⟨rootPart, joined, ⟨hroot, Outcome.mapM_ok_iff.mp hjoined⟩, rfl, ?_⟩
    exact fun none => columns (List.isEmpty_iff.mpr none)

/-- **A query is made of the parts of its nodes, in the order of the walk.** -/
theorem Sound.select_ok (sound : t.Sound) (hroot : root < t.nodes.length) {s : Select}
    (h : t.select nested root = .ok s) : t.Complete ∧ ∃ rootPart joined,
      t.Assembled nested root rootPart joined ∧ s = assemble (t.node root) rootPart joined ∧
        s.columns ≠ [] := by
  rw [sound.select_eq hroot] at h
  cases gap : t.incompleteJoin? with
  | some e =>
      rw [gap] at h
      exact absurd h (by simp)
  | none =>
      rw [gap] at h
      exact ⟨incompleteJoin?_eq_none_iff.mp gap, write_ok h⟩

/-- A joined node fails for its part only, once the joins are complete. -/
theorem joinedPart_error (complete : t.Complete) {id : NodeId} (isJoin : t.IsJoin id)
    {e : QueryError} (h : t.joinedPart nested id = .error e) :
    t.part nested (t.node id) false = .error e := by
  rcases Outcome.bind_error h with failed | ⟨p, -, failed⟩
  · exact failed
  · obtain ⟨item, hitem⟩ := complete.exists_joinItem isJoin p.source
    rcases Outcome.bind_error failed with failed | ⟨item', -, made⟩
    · exact absurd (hitem.symm.trans failed) (by simp)
    · exact absurd made (by simp [pure, Except.pure])

/-- Behind its checks a query fails for a part, or for want of columns. -/
theorem Sound.write_error (sound : t.Sound) (hroot : root < t.nodes.length)
    (complete : t.Complete) {e : QueryError} (h : t.write nested root = .error e) :
    (∃ v ∈ t.walk root, ∃ isRoot, t.part nested (t.node v) isRoot = .error e) ∨
      ∃ aliasName, e = .emptyProjection aliasName := by
  rcases Outcome.bind_error h with failed | ⟨rootPart, -, h⟩
  · exact Or.inl ⟨root, sound.walk_cons hroot ▸ List.mem_cons_self, true, failed⟩
  · rcases Outcome.bind_error h with failed | ⟨joined, -, h⟩
    · obtain ⟨v, hv, failed⟩ := Outcome.mapM_error failed
      have isJoin := sound.isJoin_of_mem_tail hroot hv
      exact Or.inl ⟨v, List.mem_of_mem_tail hv, false, joinedPart_error complete isJoin failed⟩
    · unfold finish at h
      split at h
      · exact Or.inr ⟨_, (Except.error.inj h).symm⟩
      · exact absurd h (by simp)

/-- **A query fails for an incomplete join, for columns that cannot be looked up, for want of
columns, or because a query that it nests fails.** -/
theorem Sound.select_error (sound : t.Sound) (hroot : root < t.nodes.length) {e : QueryError}
    (h : t.select nested root = .error e) :
    (∃ aliasName gap, e = .incompleteJoin aliasName gap) ∨
    (∃ entity, e = .unresolvedProperty entity "*") ∨ (∃ aliasName, e = .emptyProjection aliasName) ∨
    ∃ v ∈ t.walk root, ∃ q ∈ (t.node v).queries, nested q = .error e := by
  rw [sound.select_eq hroot] at h
  cases gap : t.incompleteJoin? with
  | some e' =>
      rw [gap] at h
      obtain rfl := Except.error.inj h
      exact Or.inl (incompleteJoin?_some gap)
  | none =>
      rw [gap] at h
      refine Or.inr ?_
      rcases sound.write_error hroot (incompleteJoin?_eq_none_iff.mp gap) h with
        ⟨v, hv, isRoot, failed⟩ | none
      · rcases part_error failed with unresolved | ⟨q, hq, failed⟩
        · exact Or.inl unresolved
        · exact Or.inr (Or.inr ⟨v, hv, q, hq, failed⟩)
      · exact Or.inr (Or.inl none)

theorem exists_joinedPart (complete : t.Complete) {id : NodeId} (isJoin : t.IsJoin id) :
    (∃ pair, t.joinedPart nested id = .ok pair) ↔
      ∃ p, t.part nested (t.node id) false = .ok p := by
  constructor
  · rintro ⟨pair, h⟩
    exact ⟨pair.1, (joinedPart_ok h).1⟩
  · rintro ⟨p, hp⟩
    obtain ⟨item, hitem⟩ := complete.exists_joinItem isJoin p.source
    refine ⟨(p, item), ?_⟩
    simp only [joinedPart, hp]
    show (t.joinItem (t.node id) p.source >>= fun item => .ok (p, item)) = _
    rw [hitem]
    rfl

/-- Whether a node of a walk brings columns. -/
def Projects (t : Tree) (root v : NodeId) : Prop :=
  Shows (t.node v) (v = root) ∧ ∃ columns, t.projection (t.node v) (v = root) = .ok columns ∧
    columns ≠ []

theorem part_columns {v : NodeId} {p : Part} (h : t.part nested (t.node v) (v = root) = .ok p) :
    p.columns ≠ [] ↔ t.Projects root v := by
  obtain ⟨shown, hidden, -⟩ := part_ok h
  constructor
  · intro columns
    have shows : Shows (t.node v) (v = root) := by
      by_contra none
      exact columns (hidden none)
    exact ⟨shows, p.columns, shown shows, columns⟩
  · rintro ⟨shows, columns, projected, some⟩
    rwa [← Except.ok.inj ((shown shows).symm.trans projected)] at some

namespace Assembled

variable {rootPart : Part} {joined : List (Part × Sql.JoinItem)}

/-- The parts of a query are those of the nodes of the walk. -/
theorem parts (h : t.Assembled nested root rootPart joined) (sound : t.Sound)
    (hroot : root < t.nodes.length) :
    List.Forall₂ (fun v p => t.part nested (t.node v) (v = root) = .ok p) (t.walk root)
      (rootPart :: joined.map (·.1)) := by
  have others : ∀ v ∈ (t.walk root).tail, v ≠ root := fun v hv => sound.ne_of_mem_tail hroot hv
  rw [sound.walk_cons hroot]
  refine List.Forall₂.cons (by simpa using h.first) ?_
  rw [List.forall₂_map_right_iff]
  refine ((List.forall₂_and_left _ _).mpr ⟨others, h.behind⟩).imp ?_
  rintro v pair ⟨other, made⟩
  simpa [other] using (joinedPart_ok made).1

theorem columns_ne_nil (h : t.Assembled nested root rootPart joined) (sound : t.Sound)
    (hroot : root < t.nodes.length) : (assemble (t.node root) rootPart joined).columns ≠ [] ↔
      ∃ v ∈ t.walk root, t.Projects root v := by
  have parts := h.parts sound hroot
  show (rootPart :: joined.map (·.1)).flatMap (·.columns) ≠ [] ↔ _
  rw [ne_eq, List.flatMap_eq_nil_iff]
  constructor
  · intro some
    obtain ⟨p, some⟩ := not_forall.mp some
    obtain ⟨hp, columns⟩ := Classical.not_imp.mp some
    obtain ⟨v, hv, made⟩ := Outcome.forall₂_mem_right parts hp
    exact ⟨v, hv, (part_columns made).mp columns⟩
  · rintro ⟨v, hv, projects⟩ none
    obtain ⟨p, hp, made⟩ := Outcome.forall₂_mem_left parts hv
    exact (part_columns made).mpr projects (none p hp)

end Assembled

/-- A complete tree whose nodes can be written has a query, unless none of them brings a column. -/
theorem Sound.select_finish (sound : t.Sound) (hroot : root < t.nodes.length) (complete : t.Complete)
    (parts : ∀ v ∈ t.walk root, ∃ p, t.part nested (t.node v) (v = root) = .ok p) :
    ∃ rootPart joined, t.Assembled nested root rootPart joined ∧
      t.select nested root = t.finish root rootPart joined := by
  obtain ⟨rootPart, hpart⟩ := parts root (sound.walk_cons hroot ▸ List.mem_cons_self)
  rw [decide_eq_true rfl] at hpart
  obtain ⟨joined, hjoined⟩ : ∃ joined, (t.walk root).tail.mapM (t.joinedPart nested) = .ok joined := by
    refine Outcome.exists_mapM_ok.mpr fun v hv => ?_
    obtain ⟨p, hp⟩ := parts v (List.mem_of_mem_tail hv)
    rw [decide_eq_false (sound.ne_of_mem_tail hroot hv)] at hp
    exact (exists_joinedPart complete (sound.isJoin_of_mem_tail hroot hv)).mpr ⟨p, hp⟩
  refine ⟨rootPart, joined, ⟨hpart, Outcome.mapM_ok_iff.mp hjoined⟩, ?_⟩
  calc t.select nested root
      = t.write nested root := by
        rw [sound.select_eq hroot, incompleteJoin?_eq_none_iff.mpr complete]
    _ = t.finish root rootPart joined := by
        unfold write
        rw [hpart, hjoined]
        rfl

/-- **A query can be written just when the tree is complete, the results of its nodes can be looked
up, one of them brings a column, and the queries that they nest can be written.** -/
theorem Sound.exists_select (sound : t.Sound) (hroot : root < t.nodes.length) :
    (∃ s, t.select nested root = .ok s) ↔ t.Complete ∧
      (∀ v ∈ t.walk root, Shows (t.node v) (v = root) →
        ∃ columns, t.projection (t.node v) (v = root) = .ok columns) ∧
      (∃ v ∈ t.walk root, t.Projects root v) ∧
      ∀ v ∈ t.walk root, ∀ q ∈ (t.node v).queries, ∃ s, nested q = .ok s := by
  constructor
  · rintro ⟨s, h⟩
    obtain ⟨complete, rootPart, joined, assembled, rfl, columns⟩ := sound.select_ok hroot h
    have parts {v : NodeId} (hv : v ∈ t.walk root) : ∃ p,
        t.part nested (t.node v) (v = root) = .ok p := by
      obtain ⟨p, -, made⟩ := Outcome.forall₂_mem_left (assembled.parts sound hroot) hv
      exact ⟨p, made⟩
    exact ⟨complete, fun v hv => (exists_part.mp (parts hv)).1,
      (assembled.columns_ne_nil sound hroot).mp columns,
      fun v hv => (exists_part.mp (parts hv)).2⟩
  · rintro ⟨complete, shown, projects, queries⟩
    obtain ⟨rootPart, joined, assembled, finished⟩ := sound.select_finish hroot complete fun v hv =>
      exists_part.mpr ⟨shown v hv, queries v hv⟩
    have columns := (assembled.columns_ne_nil sound hroot).mpr projects
    exact ⟨_, finished.trans (if_neg (mt List.isEmpty_iff.mp columns))⟩

/-- The query of a tree only depends on the queries that its nodes nest. -/
theorem select_congr {nested' : NodeRef → Except QueryError Select}
    (same : ∀ v, ∀ q ∈ (t.node v).queries, nested q = nested' q) (root : NodeId) :
    t.select nested root = t.select nested' root := by
  have joined : t.joinedPart nested = t.joinedPart nested' := by
    funext v
    simp only [joinedPart, part_congr (same v)]
  unfold select
  simp only [part_congr (same root), joined]

end QueryForest.Tree
