import QueryForest.Proofs.Forest.Aliases
import QueryForest.Proofs.Forest.Surroundings

set_option autoImplicit false

/-!
# Names that are kept free

A query that is begun in another one reserves the aliases that this one has by then. They are never
derived for a node of the query, so that none of its nodes goes by one of them as long as the caller
gives no alias to any of its joins (`Sound.subQuery_avoids`). What is done to the other query meanwhile
makes no difference.
-/

namespace QueryForest

namespace AliasTable

/-- Whether a table has none of the names that it reserves. -/
def Avoids (t : AliasTable) : Prop := ∀ aliasName ∈ t.names, aliasName ∉ t.reserved

variable {t t' : AliasTable} {entityName aliasName : String} {id : NodeId}

theorem Avoids.allocate (h : t.Avoids)
    (allocated : t.allocate entityName none id = .ok (aliasName, t')) : t'.Avoids := by
  obtain ⟨-, owners, reserved⟩ := allocate_ok allocated
  intro name mem
  have names : t'.names = t.names ++ [aliasName] := by simp [AliasTable.names, owners]
  rw [reserved]
  rcases List.mem_append.mp (names ▸ mem) with old | new
  · exact h name old
  · rw [List.mem_singleton.mp new]
    exact allocate_derived allocated

/-- The table of a new tree keeps the names that are reserved for it, and its root avoids them. -/
theorem forRoot_avoids (entityName : String) (reserved : List String) (id : NodeId) :
    (forRoot entityName none reserved id).2.Avoids ∧
      (forRoot entityName none reserved id).2.reserved = reserved := by
  constructor
  · intro name mem taken
    have derived : name = ((empty.reserve reserved).next entityName).1 := List.mem_singleton.mp mem
    have passed := (empty.reserve reserved).isTaken_next entityName
    rw [← derived, Bool.eq_false_iff] at passed
    exact passed (isTaken_iff.mpr (List.mem_append_right _ taken))
  · rfl

end AliasTable

namespace Tree

variable {t : Tree}

/-- The alias of every node is in the table, that of a branch as the alias of its node. -/
theorem Sound.aliasOf_mem_names (h : t.Sound) {id : NodeId} (hid : id < t.nodes.length) :
    t.aliasOf id ∈ t.aliases.names := by
  have owns : t.IsOwner (t.origin id) := (isOwner_iff h.linked).mpr
    ⟨h.linked.origin_lt id hid, h.linked.origin_origin id hid⟩
  rw [← h.named.aliasOf_origin id hid]
  exact List.mem_map_of_mem (h.mem_owners_iff.mpr ⟨owns, rfl⟩)

end Tree

namespace Forest

variable {f g : Forest} {i : TreeId} {t : Tree} {n : NodeRef} {entity : Entity} {actions : List Action}

/-- Whether all joins that actions make in a tree go by derived aliases. -/
def derives (f : Forest) (i : TreeId) : List Action → Bool
  | [] => true
  | a :: rest => (!f.makesJoin i a || a.joinAlias?.isNone) && (f.after a).derives i rest

/-- **As long as all aliases of a tree are derived, it has none that are reserved.** -/
theorem Sound.run_avoids (h : f.Sound) (admitted : f.admits actions) (derived : f.derives i actions)
    (ht : f.tree? i = some t) (avoids : t.aliases.Avoids) :
    ∃ t', (f.run actions).tree? i = some t' ∧ t'.aliases.Avoids := by
  induction actions generalizing f t with
  | nil => exact ⟨t, ht, avoids⟩
  | cons a rest ih =>
      obtain ⟨there, admitted⟩ := admits_cons.mp admitted
      obtain ⟨first, derived⟩ := Bool.and_eq_true_iff.mp derived
      obtain ⟨t', ht', registers⟩ := h.after_registers a there i t ht
      refine ih ((h.after_steps a there).sound h) admitted derived ht' ?_
      unfold Registers at registers
      split at registers
      · next makes =>
        obtain ⟨entityName, id, aliasName, allocated⟩ := registers
        have none : a.joinAlias? = none := by simpa [makes] using first
        rw [none] at allocated
        exact avoids.allocate allocated
      · exact registers ▸ avoids

/-! ## The node around a query -/

/-- All nodes of a tree that stand in another query stand in that of one node, if they did so before. -/
theorem Steps.outer {log : List (NodeRef × NodeRef)} (steps : Steps f log g) (ht : f.tree? i = some t)
    (one : ∀ s o, s.tree = i → (f.node s).outer = some o → o = n) :
    ∀ s o, s.tree = i → (g.node s).outer = some o → o = n := by
  induction steps generalizing t with
  | refl => exact one
  | head step _ ih =>
      obtain ⟨t', ht', -⟩ := step.kept i t ht
      refine ih ht' fun s o inTree around => ?_
      rcases step.outer around with ⟨older, same, before⟩ | ⟨new, -⟩
      · exact one older o (same.trans inTree) before
      · rw [inTree, ht] at new
        exact absurd new nofun

/-! ## Queries in queries -/

/-- What is found when a query has been begun from a node: its tree, and the aliases of the tree around it,
which it reserves and avoids. -/
structure Begun (f g : Forest) (n : NodeRef) (t : Tree) : Prop where
  tree : g.tree? f.trees.length = some t
  avoids : t.aliases.Avoids
  reserved : ∀ host, f.tree? n.tree = some host → t.aliases.reserved = host.aliases.names
  outer : ∀ s o, s.tree = f.trees.length → (g.node s).outer = some o → o = n

theorem begun_subQuery (hn : f.hasNode n) (entity : Entity) :
    ∃ t, f.Begun (f.after (.call (.subQuery n entity none))) n t := by
  obtain ⟨host, hhost⟩ := tree?_of_hasNode hn
  let t := Tree.ofRoot host.mappings entity none host.aliases.names (host.node n.node).result (some n)
  have made : f.after (.call (.subQuery n entity none)) = (f.addTree t).2 :=
    after_ok (perform_subQuery hhost entity none)
  have tree : (f.addTree t).2.tree? f.trees.length = some t := by rw [tree?_addTree, if_pos rfl]
  obtain ⟨avoids, reserved⟩ := AliasTable.forRoot_avoids entity.name host.aliases.names 0
  refine ⟨t, ?_⟩
  rw [made]
  constructor
  case tree => exact tree
  case avoids => exact avoids
  case reserved =>
    intro host' hhost'
    obtain rfl : host = host' := Option.some.inj (hhost.symm.trans hhost')
    exact reserved
  case outer =>
    intro s o inTree around
    have here : (f.addTree t).2.tree? s.tree = some t := inTree ▸ tree
    have small : s.node < t.nodes.length := lt_of_hasNode here (hasNode_of_outer around)
    rw [node_eq here] at around
    -- The root is the only node yet.
    have root : s.node = 0 := Nat.lt_one_iff.mp small
    rw [root] at around
    exact (Option.some.inj around).symm

end Forest

end QueryForest
