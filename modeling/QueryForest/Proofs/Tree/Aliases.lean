import Mathlib.Data.List.Nodup
import QueryForest.Proofs.Tree.Links

set_option autoImplicit false

/-!
# The aliases of a tree

A node that is no branch goes by an alias of its own, and its branches go by the same alias. So two
nodes have one alias just when they list their joins under one origin (`Named.aliasOf_inj`).

`Named` is what holds of the aliases of every tree that calls can make: the table of the tree has
every alias once, with the node that it was registered for.
-/

namespace QueryForest

/-! ## The table -/

namespace AliasTable

variable {t t' : AliasTable} {entityName aliasName : String} {explicit : Option String} {id : NodeId}

theorem owners_add (t : AliasTable) (aliasName : String) (id : NodeId) :
    (t.add aliasName id).owners = t.owners ++ [(aliasName, id)] := rfl

theorem register_ok (h : t.register aliasName id = .ok t') :
    aliasName ∉ t.names ∧ t' = t.add aliasName id := by
  unfold register at h
  split at h
  · exact absurd h (by simp)
  · next new => exact ⟨new, (Except.ok.inj h).symm⟩

/-- An alias is only given to a node when no other one has it. No name is reserved for that. -/
theorem allocate_ok (h : t.allocate entityName explicit id = .ok (aliasName, t')) :
    aliasName ∉ t.names ∧ t'.owners = t.owners ++ [(aliasName, id)] ∧ t'.reserved = t.reserved := by
  have registered {chosen : String} {u : AliasTable}
      (h : (u.register chosen id).map (fun t => (chosen, t)) = .ok (aliasName, t')) :
      aliasName ∉ u.names ∧ t' = u.add aliasName id := by
    cases hu : u.register chosen id with
    | error e => rw [hu] at h; exact absurd h (by simp [Except.map])
    | ok u' =>
        rw [hu] at h
        have same : (chosen, u') = (aliasName, t') := Except.ok.inj h
        obtain ⟨rfl, rfl⟩ := Prod.mk.inj same
        exact register_ok hu
  cases explicit with
  | some chosen =>
      obtain ⟨new, rfl⟩ := registered h
      exact ⟨new, owners_add t aliasName id, rfl⟩
  | none =>
      -- Deriving an alias only counts.
      obtain ⟨new, rfl⟩ := @registered (t.next entityName).1 (t.next entityName).2 h
      exact ⟨new, owners_add (t.next entityName).2 aliasName id, rfl⟩

theorem owners_forRoot (entityName : String) (explicit : Option String) (reserved : List String)
    (id : NodeId) : (forRoot entityName explicit reserved id).2.owners
      = [((forRoot entityName explicit reserved id).1, id)] := by
  cases explicit <;> rfl

end AliasTable

namespace Tree

/-! ## Named trees -/

/-- What holds of the aliases of every tree that calls can make. -/
structure Named (t : Tree) : Prop where
  aliasOf_origin : ∀ id < t.nodes.length, t.aliasOf (t.origin id) = t.aliasOf id
  /-- The table has the aliases of the nodes that are no branches. -/
  mem_owners : ∀ aliasName id, (aliasName, id) ∈ t.aliases.owners
    ↔ id < t.nodes.length ∧ t.origin id = id ∧ t.aliasOf id = aliasName
  nodup_names : t.aliases.names.Nodup

variable {t t' : Tree}

namespace Named

/-- No two nodes that are no branches share an alias. -/
theorem injective (h : t.Named) {a b : NodeId} (ha : a < t.nodes.length) (hb : b < t.nodes.length)
    (owna : t.origin a = a) (ownb : t.origin b = b) (same : t.aliasOf a = t.aliasOf b) : a = b := by
  have memA : (t.aliasOf a, a) ∈ t.aliases.owners := (h.mem_owners _ _).mpr ⟨ha, owna, rfl⟩
  have memB : (t.aliasOf b, b) ∈ t.aliases.owners := (h.mem_owners _ _).mpr ⟨hb, ownb, rfl⟩
  have equal := List.inj_on_of_nodup_map h.nodup_names memA memB same
  exact congrArg Prod.snd equal

/-- **Nodes have one alias just when they have one origin.** -/
theorem aliasOf_inj (h : t.Named) (linked : t.Linked) {a b : NodeId} (ha : a < t.nodes.length)
    (hb : b < t.nodes.length) : t.aliasOf a = t.aliasOf b ↔ t.origin a = t.origin b := by
  constructor
  · intro same
    -- The origins are no branches, and go by the aliases of the nodes.
    refine h.injective (linked.origin_lt a ha) (linked.origin_lt b hb) (linked.origin_origin a ha)
      (linked.origin_origin b hb) ?_
    calc t.aliasOf (t.origin a)
        = t.aliasOf a := h.aliasOf_origin a ha
      _ = t.aliasOf b := same
      _ = t.aliasOf (t.origin b) := (h.aliasOf_origin b hb).symm
  · intro same
    calc t.aliasOf a
        = t.aliasOf (t.origin a) := (h.aliasOf_origin a ha).symm
      _ = t.aliasOf (t.origin b) := by rw [same]
      _ = t.aliasOf b := h.aliasOf_origin b hb

/-- The aliases do not depend on anything else that a node holds. -/
theorem congr (h : t.Named) (length : t'.nodes.length = t.nodes.length)
    (origin : ∀ id, t'.origin id = t.origin id) (aliasOf : ∀ id, t'.aliasOf id = t.aliasOf id)
    (aliases : t'.aliases = t.aliases) : t'.Named := by
  constructor
  · simpa [length, origin, aliasOf] using h.aliasOf_origin
  · simpa [length, origin, aliasOf, aliases] using h.mem_owners
  · simpa [aliases] using h.nodup_names

variable {n : Node} {aliases : AliasTable}

/-- A branch shares the alias of the node it is a branch of, so the table stays as it is. -/
theorem appendBranch (h : t.Named) (linked : t.Linked) {id : NodeId} (hid : id < t.nodes.length)
    (shared : n.origin = t.origin id) (aliasName : n.aliasName = t.aliasOf id) :
    (t.addNode n t.aliases).Named := by
  have hn : n.origin < t.nodes.length := shared ▸ linked.origin_lt id hid
  constructor
  case aliasOf_origin =>
    intro k hk
    rcases (lt_length_addNode t n t.aliases).mp hk with hk | rfl
    · rw [origin_addNode _ _ _ hk, aliasOf_addNode _ _ _ (linked.origin_lt k hk),
        aliasOf_addNode _ _ _ hk, h.aliasOf_origin k hk]
    · rw [origin_addNode_new, aliasOf_addNode _ _ _ hn, aliasOf_addNode_new, shared,
        h.aliasOf_origin id hid, aliasName]
  case mem_owners =>
    intro a k
    show (a, k) ∈ t.aliases.owners ↔ _
    rw [h.mem_owners]
    constructor
    · rintro ⟨hk, own, rfl⟩
      refine ⟨(lt_length_addNode t n t.aliases).mpr (Or.inl hk), ?_, ?_⟩
      · rw [origin_addNode _ _ _ hk, own]
      · rw [aliasOf_addNode _ _ _ hk]
    · rintro ⟨hk, own, rfl⟩
      rcases (lt_length_addNode t n t.aliases).mp hk with hk | rfl
      · exact ⟨hk, by rw [← origin_addNode t n t.aliases hk, own],
          (aliasOf_addNode t n t.aliases hk).symm⟩
      · -- The branch itself is not in the table: it has the origin of an old node.
        rw [origin_addNode_new] at own
        exact absurd hn (own ▸ Nat.lt_irrefl _)
  case nodup_names => exact h.nodup_names

/-- A node of its own is registered with an alias that no other node has. -/
theorem appendOwn (h : t.Named) (linked : t.Linked) (own : n.origin = t.nodes.length)
    (new : n.aliasName ∉ t.aliases.names)
    (owners : aliases.owners = t.aliases.owners ++ [(n.aliasName, t.nodes.length)]) :
    (t.addNode n aliases).Named := by
  constructor
  case aliasOf_origin =>
    intro k hk
    rcases (lt_length_addNode t n aliases).mp hk with hk | rfl
    · rw [origin_addNode _ _ _ hk, aliasOf_addNode _ _ _ (linked.origin_lt k hk),
        aliasOf_addNode _ _ _ hk, h.aliasOf_origin k hk]
    · rw [origin_addNode_new, own]
  case mem_owners =>
    intro a k
    show (a, k) ∈ aliases.owners ↔ _
    rw [owners, List.mem_append, List.mem_singleton, Prod.mk.injEq, h.mem_owners]
    constructor
    · rintro (⟨hk, ownk, rfl⟩ | ⟨rfl, rfl⟩)
      · refine ⟨(lt_length_addNode t n aliases).mpr (Or.inl hk), ?_, ?_⟩
        · rw [origin_addNode _ _ _ hk, ownk]
        · rw [aliasOf_addNode _ _ _ hk]
      · refine ⟨(lt_length_addNode t n aliases).mpr (Or.inr rfl), ?_, ?_⟩
        · rw [origin_addNode_new, own]
        · rw [aliasOf_addNode_new]
    · rintro ⟨hk, ownk, rfl⟩
      rcases (lt_length_addNode t n aliases).mp hk with hk | rfl
      · exact Or.inl ⟨hk, by rw [← origin_addNode t n aliases hk, ownk],
          (aliasOf_addNode t n aliases hk).symm⟩
      · exact Or.inr ⟨aliasOf_addNode_new t n aliases, rfl⟩
  case nodup_names =>
    show (aliases.owners.map (·.1)).Nodup
    rw [owners, List.map_append]
    exact List.nodup_append_comm.mp (List.nodup_cons.mpr ⟨new, h.nodup_names⟩)

end Named

end Tree

end QueryForest
