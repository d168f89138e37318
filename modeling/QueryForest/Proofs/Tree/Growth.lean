import QueryForest.Proofs.Forest.Edits
import QueryForest.Proofs.Tree.Aliases

set_option autoImplicit false

/-!
# How trees grow

A tree begins with its root, and then it is given joins and branches, its joins are attached, and
its nodes are edited. Each of these steps keeps the links and the aliases in order.
-/

namespace QueryForest

/-! ## What an edit leaves alone -/

namespace Edit

variable (e : Edit) (n : Node)

theorem aliasName_apply : (e.apply n).aliasName = n.aliasName := by
  cases e with
  | select => simp only [apply, Node.select]; split <;> rfl
  | exclude => simp only [apply, Node.exclude]; split <;> rfl
  | _ => rfl

theorem origin_apply : (e.apply n).origin = n.origin := by
  cases e with
  | select => simp only [apply, Node.select]; split <;> rfl
  | exclude => simp only [apply, Node.exclude]; split <;> rfl
  | _ => rfl

/-- Of a join, an edit changes the conditions at most. -/
theorem join_apply : ∃ conditions, (e.apply n).join
    = n.join.map fun edge => { edge with conditions := edge.conditions ++ conditions } := by
  have same : n.join = n.join.map fun edge => { edge with conditions := edge.conditions ++ [] } := by
    simp
  cases e with
  | condition c => exact ⟨[c], rfl⟩
  | select => exact ⟨[], by simp only [apply, Node.select]; split <;> exact same⟩
  | exclude => exact ⟨[], by simp only [apply, Node.exclude]; split <;> exact same⟩
  | _ => exact ⟨[], same⟩

end Edit

namespace Tree

/-- What holds of every tree that calls can make. -/
structure Sound (t : Tree) : Prop where
  linked : t.Linked
  named : t.Named

variable {t t' : Tree} {id : NodeId}

/-- A property of nodes that edits keep is the same of all nodes of an edited tree. -/
theorem node_edit {α : Type} (p : Node → α) (e : Edit) (same : ∀ n, p (e.apply n) = p n)
    (t : Tree) (id k : NodeId) : p ((t.modify id e.apply).node k) = p (t.node k) :=
  t.node_modify_same p same id k

theorem origin_edit (e : Edit) (t : Tree) (id k : NodeId) :
    (t.modify id e.apply).origin k = t.origin k :=
  node_edit Node.origin e e.origin_apply t id k

theorem aliasOf_edit (e : Edit) (t : Tree) (id k : NodeId) :
    (t.modify id e.apply).aliasOf k = t.aliasOf k :=
  node_edit Node.aliasName e e.aliasName_apply t id k

theorem parent_edit (e : Edit) (t : Tree) (id k : NodeId) :
    (t.modify id e.apply).parent? k = t.parent? k := by
  refine node_edit (fun n => n.join.bind (·.parent)) e (fun n => ?_) t id k
  obtain ⟨conditions, h⟩ := e.join_apply n
  show (e.apply n).join.bind (·.parent) = _
  rw [h]
  cases n.join <;> rfl

theorem reference_edit (e : Edit) (t : Tree) (id k : NodeId) :
    ((t.modify id e.apply).node k).join.map (·.reference) = (t.node k).join.map (·.reference) := by
  refine node_edit (fun n => n.join.map (·.reference)) e (fun n => ?_) t id k
  obtain ⟨conditions, h⟩ := e.join_apply n
  show (e.apply n).join.map (·.reference) = _
  rw [h, Option.map_map]
  rfl

/-! ## The steps as equations -/

/-- The join that `addJoin` adds. -/
def newJoin (t : Tree) (reference : NodeId) (source : NodeSource) (kind : Sql.JoinKind)
    (aliasName : String) : Node :=
  { source, aliasName, result := (t.node reference).result, join := some { kind, reference }
    origin := t.nodes.length }

theorem addJoin_eq (t : Tree) (reference : NodeId) (source : NodeSource) (kind : Sql.JoinKind)
    (explicit : Option String) :
    t.addJoin reference source kind explicit
      = (t.aliases.allocate source.entityOf.name explicit t.nodes.length).map fun allocated =>
          (t.nodes.length, t.addNode (t.newJoin reference source kind allocated.1) allocated.2) := by
  unfold addJoin
  show ((t.aliases.allocate source.entityOf.name explicit t.nodes.length) >>= fun allocated =>
    Except.ok (t.nodes.length,
      t.addNode (t.newJoin reference source kind allocated.1) allocated.2)) = _
  cases t.aliases.allocate source.entityOf.name explicit t.nodes.length <;> rfl

/-- What is added is a join under the alias that the table gives it. -/
theorem addJoin_allocated {reference : NodeId} {source : NodeSource} {kind : Sql.JoinKind}
    {explicit : Option String} (made : t.addJoin reference source kind explicit = .ok (id, t')) :
    ∃ aliasName aliases,
      t.aliases.allocate source.entityOf.name explicit t.nodes.length = .ok (aliasName, aliases) ∧
        id = t.nodes.length ∧ t' = t.addNode (t.newJoin reference source kind aliasName) aliases := by
  rw [addJoin_eq] at made
  cases allocated : t.aliases.allocate source.entityOf.name explicit t.nodes.length with
  | error e =>
      rw [allocated] at made
      exact absurd made (by simp [Except.map])
  | ok chosen =>
      rw [allocated] at made
      obtain ⟨rfl, rfl⟩ := Prod.mk.inj (Except.ok.inj made)
      exact ⟨chosen.1, chosen.2, rfl, rfl, rfl⟩

/-- A new join is unattached and goes by an alias that no other node has. -/
theorem addJoin_ok {reference : NodeId} {source : NodeSource} {kind : Sql.JoinKind}
    {explicit : Option String} (made : t.addJoin reference source kind explicit = .ok (id, t')) :
    id = t.nodes.length ∧ ∃ aliasName aliases, aliasName ∉ t.aliases.names ∧
      aliases.owners = t.aliases.owners ++ [(aliasName, t.nodes.length)] ∧
      t' = t.addNode (t.newJoin reference source kind aliasName) aliases := by
  obtain ⟨aliasName, aliases, allocated, first, added⟩ := addJoin_allocated made
  obtain ⟨new, owners, -⟩ := AliasTable.allocate_ok allocated
  exact ⟨first, aliasName, aliases, new, owners, added⟩

theorem addBranch_eq (t : Tree) (id : NodeId) :
    t.addBranch id = (t.nodes.length, t.addNode (t.node id).branch t.aliases) := rfl

/-- A join that has no parent is attached, unless the parent hangs below it. -/
theorem attach_eq {join parent : NodeId} (isJoin : t.IsJoin join) (free : t.parent? join = none) :
    t.attach join parent
      = if t.reaches join parent then .error (.cycle (t.aliasOf join))
        else .ok (t.addLink join parent) := by
  obtain ⟨edge, hedge⟩ := Option.isSome_iff_exists.mp isJoin
  have unattached : edge.parent = none := by
    simpa [parent?, hedge] using free
  unfold attach
  simp only [hedge, unattached]
  split
  · rfl
  · -- The edge is that of the join, and only the join is changed.
    have moved : t.modify join (fun n => { n with join := some { edge with parent := some parent } })
        = t.modify join (setParent parent) := by
      have at_join : join < t.nodes.length := isJoin.lt
      have same : t.nodes[join] = t.node join := by simp [node, at_join]
      unfold modify
      congr 1
      refine List.ext_getElem (by simp) fun k hk _ => ?_
      by_cases other : join = k
      · subst other
        simp [setParent, same, hedge]
      · simp [other]
    rw [moved]
    show Except.ok { t.modify join (setParent parent) with
      links := t.links ++ [((t.addLink join parent).origin parent, join)] } = _
    rw [origin_addLink]
    rfl

/-- Only an unattached join is attached, and not to what hangs below it. -/
theorem attach_ok {join parent : NodeId} (h : t.attach join parent = .ok t') :
    t.IsJoin join ∧ t.parent? join = none ∧ t.reaches join parent = false ∧
      t' = t.addLink join parent := by
  have isJoin : t.IsJoin join := by
    by_contra notJoin
    have none : (t.node join).join = none := Option.not_isSome_iff_eq_none.mp notJoin
    simp [attach, none] at h
  have free : t.parent? join = none := by
    obtain ⟨edge, hedge⟩ := Option.isSome_iff_exists.mp isJoin
    cases hparent : edge.parent with
    | none => simp [parent?, hedge, hparent]
    | some parent => simp [attach, hedge, hparent] at h
  rw [attach_eq isJoin free] at h
  split at h
  · exact absurd h (by simp)
  · next apart =>
    exact ⟨isJoin, free, Bool.eq_false_iff.mpr apart, (Except.ok.inj h).symm⟩

/-! ## Every step keeps the tree in order -/

section Single

variable {root : Node}

theorem eq_zero_of_single (nodes : t.nodes = [root]) {k : NodeId} (hk : k < t.nodes.length) :
    k = 0 := by
  rw [nodes] at hk
  exact Nat.lt_one_iff.mp hk

theorem node_single (nodes : t.nodes = [root]) : t.node 0 = root := by
  simp [Tree.node, nodes]

/-- A tree of one node that is no join has its links in order. -/
theorem Linked.single (nodes : t.nodes = [root]) (origin : root.origin = 0)
    (join : root.join = none) (links : t.links = []) : t.Linked := by
  have only {k : NodeId} (hk : k < t.nodes.length) : k = 0 := eq_zero_of_single nodes hk
  have here : 0 < t.nodes.length := by simp [nodes]
  have top : t.origin 0 = 0 := by rw [Tree.origin, node_single nodes, origin]
  have noJoin (k : NodeId) : ¬ t.IsJoin k := by
    intro isJoin
    obtain rfl := only isJoin.lt
    rw [IsJoin, node_single nodes, join] at isJoin
    exact Bool.false_ne_true isJoin
  have noChild (a b : NodeId) : ¬ t.IsChild a b := fun child => noJoin b child.isJoin
  constructor
  case nonempty => exact here
  case root_origin => exact top
  case root_not_join => exact noJoin 0
  case origin_lt =>
    intro k hk
    obtain rfl := only hk
    rw [top]
    exact here
  case origin_origin =>
    intro k hk
    obtain rfl := only hk
    rw [top, top]
  case origin_join => exact fun k isJoin => absurd isJoin (noJoin k)
  case join_of_origin => exact fun k hk _ => Or.inl (only hk)
  case reference_lt =>
    exact fun k edge hedge => absurd (Option.isSome_iff_exists.mpr ⟨edge, hedge⟩) (noJoin k)
  case parent_lt => exact fun k p hp => absurd (isJoin_of_parent hp) (noJoin k)
  case mem_links =>
    intro a b
    rw [links]
    exact ⟨fun h => absurd h List.not_mem_nil, fun child => absurd child (noChild a b)⟩
  case nodup_links =>
    rw [links]
    exact List.nodup_nil
  case acyclic =>
    intro v cycle
    cases cycle with
    | single edge => exact noChild _ _ edge
    | tail _ edge => exact noChild _ _ edge

/-- A tree of one node that is registered under its alias has its aliases in order. -/
theorem Named.single (nodes : t.nodes = [root]) (origin : root.origin = 0)
    (owners : t.aliases.owners = [(root.aliasName, 0)]) : t.Named := by
  have only {k : NodeId} (hk : k < t.nodes.length) : k = 0 := eq_zero_of_single nodes hk
  have top : t.origin 0 = 0 := by rw [Tree.origin, node_single nodes, origin]
  have aliasOf : t.aliasOf 0 = root.aliasName := by rw [Tree.aliasOf, node_single nodes]
  constructor
  case aliasOf_origin =>
    intro k hk
    obtain rfl := only hk
    rw [top]
  case mem_owners =>
    intro a k
    rw [owners, List.mem_singleton, Prod.mk.injEq]
    constructor
    · rintro ⟨rfl, rfl⟩
      exact ⟨by simp [nodes], top, aliasOf⟩
    · rintro ⟨hk, -, rfl⟩
      obtain rfl := only hk
      exact ⟨aliasOf, rfl⟩
  case nodup_names =>
    rw [AliasTable.names, owners]
    exact List.nodup_singleton _

end Single

namespace Sound

theorem ofRoot (mappings : Registry) (entity : Entity) (explicit : Option String)
    (reserved : List String) (result : ResultSettings) (outer : Option NodeRef) :
    (Tree.ofRoot mappings entity explicit reserved result outer).Sound :=
  ⟨.single rfl rfl rfl rfl, .single rfl rfl (AliasTable.owners_forRoot entity.name explicit reserved 0)⟩

theorem addBranch (h : t.Sound) (hid : id < t.nodes.length) : (t.addBranch id).2.Sound := by
  have fits : t.Fits (t.node id).branch := Or.inr ⟨rfl, id, hid, rfl⟩
  exact ⟨h.linked.append fits t.aliases, h.named.appendBranch h.linked hid rfl rfl⟩

theorem addJoin (h : t.Sound) {reference : NodeId} (hreference : reference < t.nodes.length)
    {source : NodeSource} {kind : Sql.JoinKind} {explicit : Option String}
    (made : t.addJoin reference source kind explicit = .ok (id, t')) : t'.Sound := by
  obtain ⟨-, aliasName, aliases, new, owners, rfl⟩ := addJoin_ok made
  exact ⟨h.linked.append (Or.inl ⟨rfl, { kind, reference }, rfl, hreference, rfl⟩) aliases,
    h.named.appendOwn h.linked rfl new owners⟩

theorem attach (h : t.Sound) {join parent : NodeId} (hparent : parent < t.nodes.length)
    (attached : t.attach join parent = .ok t') : t'.Sound := by
  obtain ⟨isJoin, free, apart, rfl⟩ := attach_ok attached
  refine ⟨h.linked.link isJoin free hparent apart, h.named.congr ?_ origin_addLink ?_ rfl⟩
  · exact t.length_modify join (setParent parent)
  · intro k
    show ((t.modify join (setParent parent)).node k).aliasName = (t.node k).aliasName
    rw [node_modify]
    split <;> rfl

theorem edit (h : t.Sound) (e : Edit) (id : NodeId) : (t.modify id e.apply).Sound :=
  ⟨h.linked.congr (t.length_modify id e.apply) (origin_edit e t id) (reference_edit e t id)
      (parent_edit e t id) rfl,
    h.named.congr (t.length_modify id e.apply) (origin_edit e t id) (aliasOf_edit e t id) rfl⟩

end Sound

end Tree

end QueryForest
