import QueryForest.Proofs.Forest.Permanence
import QueryForest.Proofs.Forest.Tables

set_option autoImplicit false

/-!
# Aliases in a run

Whatever is asked of a tree, its table has the aliases of the root and of the joins, each with its
node, and they are all different (`Tree.Sound.registered`). A branch goes by the alias of its node
and is not in the table. No alias ever changes, and every join brings one more (`aliases_run`).
-/

namespace QueryForest

namespace AliasTable

theorem lookup_eq_some_iff {owners : List (String × NodeId)} (nodup : (owners.map (·.1)).Nodup)
    {aliasName : String} {id : NodeId} :
    owners.lookup aliasName = some id ↔ (aliasName, id) ∈ owners := by
  induction owners with
  | nil => simp
  | cons first rest ih =>
      obtain ⟨name, node⟩ := first
      obtain ⟨new, others⟩ := List.nodup_cons.mp nodup
      rw [List.lookup_cons, List.mem_cons, Prod.mk.injEq]
      by_cases same : aliasName = name
      · subst same
        -- The alias is not in the rest of the table.
        have absent : (aliasName, id) ∉ rest := fun mem => new (List.mem_map.mpr ⟨_, mem, rfl⟩)
        simp [absent, eq_comm]
      · have other : (aliasName == name) = false := by simp [same]
        simp [other, same, ih others]

/-- A table that has every alias once gives the node of an entry for its alias. -/
theorem owner?_eq_some_iff {t : AliasTable} (nodup : t.names.Nodup) {aliasName : String}
    {id : NodeId} : t.owner? aliasName = some id ↔ (aliasName, id) ∈ t.owners :=
  lookup_eq_some_iff nodup

end AliasTable

namespace Tree

/-! ## What the table has -/

/-- A node with an alias of its own: the root or a join. -/
def IsOwner (t : Tree) (id : NodeId) : Prop := id = 0 ∨ t.IsJoin id

instance (t : Tree) (id : NodeId) : Decidable (t.IsOwner id) :=
  inferInstanceAs (Decidable (id = 0 ∨ t.IsJoin id))

/-- Whether the table of a tree has just the aliases of the root and the joins. -/
structure Registered (t : Tree) : Prop where
  owner : ∀ aliasName id,
    t.aliases.owner? aliasName = some id ↔ t.IsOwner id ∧ t.aliasOf id = aliasName
  /-- The nodes in the table are there. -/
  lt : ∀ aliasName id, t.aliases.owner? aliasName = some id → id < t.nodes.length
  /-- No two of these nodes share an alias. -/
  distinct : ∀ a b, t.IsOwner a → t.IsOwner b → t.aliasOf a = t.aliasOf b → a = b
  nodup : t.aliases.names.Nodup
  /-- There is one alias more than there are joins. -/
  size : t.aliases.size = t.nodes.countP (·.join.isSome) + 1

variable {t : Tree}

theorem IsOwner.lt (linked : t.Linked) {id : NodeId} (h : t.IsOwner id) : id < t.nodes.length := by
  rcases h with rfl | isJoin
  · exact linked.nonempty
  · exact isJoin.lt

/-- The root and the joins are the nodes that are no branches. -/
theorem isOwner_iff (linked : t.Linked) {id : NodeId} :
    t.IsOwner id ↔ id < t.nodes.length ∧ t.origin id = id := by
  constructor
  · intro h
    refine ⟨h.lt linked, ?_⟩
    rcases h with rfl | isJoin
    · exact linked.root_origin
    · exact linked.origin_join id isJoin
  · rintro ⟨hid, own⟩
    exact linked.join_of_origin id hid own

/-- The joins of a tree, in the order of the nodes. -/
def joins (t : Tree) : List NodeId := (List.range t.nodes.length).filter (t.IsJoin ·)

theorem length_joins (t : Tree) : t.joins.length = t.nodes.countP (·.join.isSome) := by
  have nodes : t.nodes = (List.range t.nodes.length).map t.node := by
    refine List.ext_getElem (by simp) fun k hk _ => ?_
    simp [node, hk]
  rw [joins, ← List.countP_eq_length_filter]
  conv_rhs => rw [nodes, List.countP_map]
  exact List.countP_congr fun id _ => decide_eq_true_iff

namespace Sound

theorem mem_owners_iff (h : t.Sound) {aliasName : String} {id : NodeId} :
    (aliasName, id) ∈ t.aliases.owners ↔ t.IsOwner id ∧ t.aliasOf id = aliasName := by
  rw [h.named.mem_owners, isOwner_iff h.linked, and_assoc]

/-- The nodes in the table are the root and the joins, each of them once. -/
theorem owners_perm (h : t.Sound) : (t.aliases.owners.map (·.2)).Perm (0 :: t.joins) := by
  have different : (t.aliases.owners.map (·.2)).Nodup := by
    refine (List.nodup_map_iff_inj_on (List.Nodup.of_map _ h.named.nodup_names)).mpr ?_
    rintro ⟨a, id⟩ mem ⟨b, _⟩ mem' rfl
    -- Both aliases are that of the node.
    have same : a = b :=
      ((h.named.mem_owners a id).mp mem).2.2.symm.trans ((h.named.mem_owners b id).mp mem').2.2
    rw [same]
  have listed : (0 :: t.joins).Nodup := by
    refine List.nodup_cons.mpr ⟨fun mem => ?_, List.nodup_range.filter _⟩
    exact h.linked.root_not_join (of_decide_eq_true (List.mem_filter.mp mem).2)
  refine (List.perm_ext_iff_of_nodup different listed).mpr fun id => ?_
  have owner : id ∈ t.aliases.owners.map (·.2) ↔ t.IsOwner id := by
    rw [List.mem_map]
    constructor
    · rintro ⟨⟨a, _⟩, mem, rfl⟩
      exact (h.mem_owners_iff.mp mem).1
    · intro owns
      exact ⟨(t.aliasOf id, id), h.mem_owners_iff.mpr ⟨owns, rfl⟩, rfl⟩
  rw [owner, List.mem_cons, joins, List.mem_filter, List.mem_range, decide_eq_true_iff]
  exact or_congr_right ⟨fun isJoin => ⟨isJoin.lt, isJoin⟩, fun h => h.2⟩

/-- **The table has the aliases of the root and of the joins, each with its node.** -/
theorem registered (h : t.Sound) : t.Registered := by
  have owner (aliasName : String) (id : NodeId) :
      t.aliases.owner? aliasName = some id ↔ t.IsOwner id ∧ t.aliasOf id = aliasName := by
    rw [AliasTable.owner?_eq_some_iff h.named.nodup_names, h.mem_owners_iff]
  constructor
  case owner => exact owner
  case lt => exact fun aliasName id found => ((owner aliasName id).mp found).1.lt h.linked
  case distinct =>
    intro a b ha hb same
    obtain ⟨hla, owna⟩ := (isOwner_iff h.linked).mp ha
    obtain ⟨hlb, ownb⟩ := (isOwner_iff h.linked).mp hb
    exact h.named.injective hla hlb owna ownb same
  case nodup => exact h.named.nodup_names
  case size =>
    calc t.aliases.size
        = (t.aliases.owners.map (·.2)).length := (List.length_map _).symm
      _ = (0 :: t.joins).length := h.owners_perm.length_eq
      _ = t.nodes.countP (·.join.isSome) + 1 := by rw [List.length_cons, length_joins]

end Sound

end Tree

namespace Forest

variable {f : Forest} {i : TreeId} {t : Tree} {r : NodeRef}

/-- Begins a tree with a root, whose derived alias avoids some names: none for a query of its own,
and those of the enclosing tree for one that is going to be nested (`perform_subQuery`). -/
def begin (f : Forest) (mappings : Registry) (entity : Entity) (explicit : Option String)
    (reserved : List String) (result : ResultSettings) (outer : Option NodeRef) : Forest :=
  (f.addTree (Tree.ofRoot mappings entity explicit reserved result outer)).2

theorem perform_subQuery (ht : f.tree? r.tree = some t) (entity : Entity) (explicit : Option String) :
    (Call.subQuery r entity explicit).perform f
      = .ok ⟨f.trees.length, 0⟩ (f.begin t.mappings entity explicit t.aliases.names
          (t.node r.node).result (some r)) :=
  Build.subQuery_apply ht entity explicit

/-! ## Calls -/

/-- What a branch takes over: it is a new node with the alias and the origin of its node, and the
table of the tree stays as it is. -/
structure Copies (f : Forest) (r s : NodeRef) (t t' : Tree) : Prop where
  before : f.tree? r.tree = some t
  node : s = ⟨r.tree, t.nodes.length⟩
  new : t'.nodes.length = t.nodes.length + 1
  aliasOf : t'.aliasOf s.node = t.aliasOf r.node
  origin : t'.origin s.node = t.origin r.node
  notOwner : ¬ t'.IsOwner s.node
  aliases : t'.aliases = t.aliases

/-- A branch is always added, and copies its node. -/
theorem Sound.branch_copies (h : f.Sound) (hr : f.hasNode r) : ∃ s g t t',
    (Call.branch r).perform f = .ok s g ∧ g.tree? r.tree = some t' ∧ f.Copies r s t t' := by
  obtain ⟨t, ht, small⟩ := hasNode_iff.mp hr
  have linked := (h.tree r.tree t ht).linked
  let t' := t.addNode (t.node r.node).branch t.aliases
  have copy : t'.node t.nodes.length = (t.node r.node).branch := t.node_addNode_new _ _
  refine ⟨⟨r.tree, t.nodes.length⟩, f.setTree r.tree t', t, t', Build.branch_apply ht, ?_, ?_⟩
  · rw [tree?_setTree ht, if_pos rfl]
  constructor
  case before => exact ht
  case node => rfl
  case new => exact t.length_addNode _ _
  case aliasOf =>
    show (t'.node t.nodes.length).aliasName = _
    rw [copy]
    rfl
  case origin =>
    show (t'.node t.nodes.length).origin = _
    rw [copy]
    rfl
  case aliases => rfl
  case notOwner =>
    rintro (root | isJoin)
    · -- There was a node before the branch, so that the branch is not the root.
      have nonempty : 0 < t.nodes.length := linked.nonempty
      have first : t.nodes.length = 0 := root
      omega
    · have edge : (t'.node t.nodes.length).join.isSome := isJoin
      rw [copy] at edge
      exact absurd edge (by simp [Node.branch])

/-- A join without an alias of the caller's is always made. -/
theorem exists_join (hr : f.hasNode r) (entity : Entity) (kind : Sql.JoinKind) :
    ∃ s g, (Call.join r entity kind none).perform f = .ok s g := by
  obtain ⟨t, ht⟩ := tree?_of_hasNode hr
  obtain ⟨⟨id, t'⟩, added⟩ := t.exists_addJoin r.node (.entity entity) kind
  refine ⟨⟨r.tree, id⟩, f.setTree r.tree t', ?_⟩
  show Build.addJoin r (.entity entity) kind none f = _
  rw [Build.addJoin_apply ht, added]

/-! ## How many aliases there are -/

/-- The number of joins that actions make in a tree. -/
def joinsMade (f : Forest) (i : TreeId) : List Action → Nat
  | [] => 0
  | a :: rest => (f.makesJoin i a).toNat + (f.after a).joinsMade i rest

/-- Whether a tree has some number of aliases more in another forest. -/
def Gains (f g : Forest) (i : TreeId) (n : Nat) : Prop :=
  ∀ t, f.tree? i = some t → ∃ t', g.tree? i = some t' ∧ t'.aliases.size = t.aliases.size + n

namespace Gains

variable {g h : Forest} {n m : Nat}

theorem refl (f : Forest) (i : TreeId) : f.Gains f i 0 := fun t ht => ⟨t, ht, rfl⟩

theorem trans (first : f.Gains g i n) (rest : g.Gains h i m) : f.Gains h i (n + m) := by
  intro t ht
  obtain ⟨t', ht', size⟩ := first t ht
  obtain ⟨t'', ht'', size'⟩ := rest t' ht'
  exact ⟨t'', ht'', by omega⟩

end Gains

/-- **A tree has one alias more after every join that is made in it, and otherwise as many as
before.** -/
theorem Sound.after_gains (h : f.Sound) (a : Action) (there : ∀ r ∈ a.nodes, f.hasNode r)
    (i : TreeId) : f.Gains (f.after a) i (f.makesJoin i a).toNat := by
  intro t ht
  obtain ⟨t', ht', registers⟩ := h.after_registers a there i t ht
  refine ⟨t', ht', ?_⟩
  unfold Registers at registers
  split at registers
  · next makes =>
    obtain ⟨entityName, id, aliasName, allocated⟩ := registers
    obtain ⟨-, owners, -⟩ := AliasTable.allocate_ok allocated
    rw [makes, AliasTable.size, owners, List.length_append]
    rfl
  · next quiet =>
    rw [Bool.eq_false_iff.mpr quiet, registers]
    rfl

theorem Sound.run_gains (h : f.Sound) {actions : List Action} (admitted : f.admits actions)
    (i : TreeId) : f.Gains (f.run actions) i (f.joinsMade i actions) := by
  induction actions generalizing f with
  | nil => exact .refl f i
  | cons a rest ih =>
      obtain ⟨there, admitted⟩ := admits_cons.mp admitted
      have sound : (f.after a).Sound := (h.after_steps a there).sound h
      exact (h.after_gains a there i).trans (ih sound admitted)

/-! ## Whole runs -/

theorem Sound.begin (h : f.Sound) (mappings : Registry) (entity : Entity) (explicit : Option String)
    (reserved : List String) (result : ResultSettings) (outer : Option NodeRef) :
    (f.begin mappings entity explicit reserved result outer).Sound :=
  h.addTree (Tree.Sound.ofRoot mappings entity explicit reserved result outer) rfl

theorem tree?_begin (f : Forest) (mappings : Registry) (entity : Entity) (explicit : Option String)
    (reserved : List String) (result : ResultSettings) (outer : Option NodeRef) :
    (f.begin mappings entity explicit reserved result outer).tree? f.trees.length
      = some (Tree.ofRoot mappings entity explicit reserved result outer) := by
  rw [begin, tree?_addTree, if_pos rfl]

/-- **Whatever is done after a tree was begun, with names of the caller's or derived ones and also
with calls that fail, its table has the aliases of the root and of the joins, each with its node, and
no two of them are the same.** There is one more than joins have been made. Nodes stay what they are
and keep their aliases. A branch can always be made, and has the alias and the origin of its node,
but no entry of its own. A join without an alias of the caller's is never refused. -/
theorem aliases_run (h : f.Reachable) {g : Forest} {mappings : Registry} {entity : Entity}
    {explicit : Option String} {reserved : List String} {result : ResultSettings}
    {outer : Option NodeRef} (began : f.begin mappings entity explicit reserved result outer = g)
    {actions : List Action} (admitted : g.admits actions) :
    ∃ t, (g.run actions).tree? f.trees.length = some t ∧ t.Registered ∧
      t.aliases.size = g.joinsMade f.trees.length actions + 1 ∧
      (∀ before rest, actions = before ++ rest →
        ∃ u, (g.run before).tree? f.trees.length = some u ∧ u.Registered ∧ u.Kept t) ∧
      (∀ before r rest, actions = before ++ .call (.branch r) :: rest → r.tree = f.trees.length →
        ∃ s g' u u', (Call.branch r).perform (g.run before) = .ok s g' ∧
          (g.run before).Copies r s u u' ∧ g'.tree? r.tree = some u' ∧ u'.Kept t) ∧
      ∀ before r entity kind rest, actions = before ++ .call (.join r entity kind none) :: rest →
        (g.run before).accepts (.join r entity kind none) := by
  have sound : g.Sound := began ▸ h.sound.begin mappings entity explicit reserved result outer
  have first : g.tree? f.trees.length
      = some (Tree.ofRoot mappings entity explicit reserved result outer) :=
    began ▸ f.tree?_begin mappings entity explicit reserved result outer
  obtain ⟨t, ht, size⟩ := sound.run_gains admitted f.trees.length _ first
  have final : (g.run actions).Sound := (sound.run_steps actions admitted).sound sound
  -- What there is after some of the actions stays until the end.
  have upTo (before rest : List Action) (split : actions = before ++ rest) :
      g.admits before ∧ (g.run before).Sound ∧ (g.run before).admits rest := by
    rw [split, admits_append, Bool.and_eq_true] at admitted
    exact ⟨admitted.1, (sound.run_steps before admitted.1).sound sound, admitted.2⟩
  have stays (before rest : List Action) (split : actions = before ++ rest) :
      (g.run before).Kept (g.run actions) := by
    obtain ⟨-, soundThen, behind⟩ := upTo before rest split
    rw [split, run_append]
    exact soundThen.run_kept behind
  refine ⟨t, ht, (final.tree _ t ht).registered, ?_, ?_, ?_, ?_⟩
  · have one : (Tree.ofRoot mappings entity explicit reserved result outer).aliases.size = 1 := by
      rw [AliasTable.size]
      exact congrArg List.length (AliasTable.owners_forRoot entity.name explicit reserved 0)
    rw [size, one, Nat.add_comm]
  · intro before rest split
    obtain ⟨admittedThen, soundThen, -⟩ := upTo before rest split
    obtain ⟨u, hu, -⟩ := sound.run_kept admittedThen _ _ first
    obtain ⟨t', ht', kept⟩ := stays before rest split _ u hu
    obtain rfl : t = t' := Option.some.inj (ht.symm.trans ht')
    exact ⟨u, hu, (soundThen.tree _ u hu).registered, kept⟩
  · intro before r rest split inTree
    obtain ⟨-, soundThen, behind⟩ := upTo before _ split
    have hr : (g.run before).hasNode r := (admits_cons.mp behind).1 r List.mem_cons_self
    obtain ⟨s, g', u, u', made, hu', copies⟩ := soundThen.branch_copies hr
    have reached : g.run (before ++ [.call (.branch r)]) = g' := by
      rw [run_append]
      exact after_ok made
    obtain ⟨t', ht', kept⟩ := stays (before ++ [.call (.branch r)]) rest (by simp [split]) r.tree u'
      (reached ▸ hu')
    obtain rfl : t = t' := Option.some.inj (ht.symm.trans (inTree ▸ ht'))
    exact ⟨s, g', u, u', made, copies, hu', kept⟩
  · intro before r joined kind rest split
    obtain ⟨-, -, behind⟩ := upTo before _ split
    have hr : (g.run before).hasNode r := (admits_cons.mp behind).1 r List.mem_cons_self
    obtain ⟨s, g', made⟩ := exists_join hr joined kind
    simp [accepts, made]

/-- An order joined with other orders: once more under a derived alias, under the alias that this
one has, which is refused, and under a name that is only reserved. Then the first join is branched,
and the branch as well. -/
def reordered : List Action :=
  [.call (.join ⟨0, 0⟩ ⟨"order", "Order", "orders"⟩ .inner none),
    .call (.join ⟨0, 0⟩ ⟨"order", "Order", "orders"⟩ .inner (some "o2")),
    .call (.join ⟨0, 1⟩ ⟨"order", "Order", "orders"⟩ .left (some "o")),
    .call (.branch ⟨0, 1⟩), .call (.branch ⟨0, 3⟩), .call (.attach ⟨0, 1⟩)]

/-- The derived aliases pass over the reserved one. Three of the five nodes have an alias of their
own, and the two branches go by the alias of the first join. -/
theorem aliases_run_reordered : ∃ t,
    ((empty.begin {} ⟨"order", "Order", "orders"⟩ none ["o"] {} none).run reordered).tree? 0 = some t ∧
      t.Registered ∧ t.aliases.names = ["o1", "o2", "o"] ∧
      (List.range 5).map t.aliasOf = ["o1", "o2", "o", "o2", "o2"] ∧
      (List.range 5).map t.origin = [0, 1, 2, 1, 1] := by
  have reachable : empty.Reachable := ⟨[], rfl, rfl⟩
  have admitted : (empty.begin {} ⟨"order", "Order", "orders"⟩ none ["o"] {} none).admits reordered := by
    decide
  obtain ⟨t, ht, registered, -⟩ := aliases_run reachable rfl admitted
  have names : t.aliases.names = ["o1", "o2", "o"] := by
    obtain rfl := Option.some.inj ht
    decide
  refine ⟨t, ht, registered, names, ?_, ?_⟩
  · obtain rfl := Option.some.inj ht
    decide
  · obtain rfl := Option.some.inj ht
    decide

end Forest

end QueryForest
