import Mathlib.Data.List.Perm.Subperm
import QueryForest.Mapping.Run

set_option autoImplicit false

/-!
# What lives in a catalog

Which entry a cache has for a property of a provider, and when it counts. Taking and letting go of
handles never brings anything back to life: it only changes what lives, and only to less than
before.
-/

namespace QueryForest

theorem getElem?_modify_eq_some_iff {α : Type} {l : List α} {f : α → α} {i j : Nat} {a : α} :
    (l.modify i f)[j]? = some a ↔ ∃ b, l[j]? = some b ∧ a = if i = j then f b else b := by
  rw [List.getElem?_modify, Option.map_eq_map, Option.map_eq_some_iff]
  exact exists_congr fun b => and_congr_right fun _ => eq_comm

namespace ColumnCache

variable {c : ColumnCache} {key other : CacheKey} {entry : CacheEntry}

theorem mem_of_entry (h : c.added? key = some entry) : (key, entry) ∈ c.entries := by
  rw [ added?, List.lookup_eq_some_iff] at h
  obtain ⟨before, after, split, -⟩ := h
  exact split ▸ List.mem_append_right _ List.mem_cons_self

theorem mem_put {x : CacheKey × CacheEntry} :
    x ∈ (c.put key entry).entries ↔ x = (key, entry) ∨ x ∈ c.entries ∧ x.1 ≠ key := by
  simp [put, List.mem_filter]

theorem entry_put_self : ColumnCache.added? (c.put key entry) key = some entry := by
  simp [ added?, put]

theorem lookup_filter_of_ne (entries : List (CacheKey × CacheEntry)) (h : other ≠ key) :
    (entries.filter (·.1 ≠ key)).lookup other = entries.lookup other := by
  induction entries with
  | nil => rfl
  | cons first rest ih =>
      by_cases same : first.1 = key
      · have apart : (other == first.1) = false := by simpa [same] using h
        rw [List.filter_cons_of_neg (by simpa using same), ih, List.lookup_cons, apart]
      · rw [List.filter_cons_of_pos (by simpa using same), List.lookup_cons, List.lookup_cons, ih]

theorem entry_put_of_ne (h : other ≠ key) :
    ColumnCache.added? (c.put key entry) other = c.added? other := by
  have apart : (other == key) = false := by simpa using h
  rw [ added?, put, List.lookup_cons, apart]
  exact lookup_filter_of_ne c.entries h

theorem mem_purge {counts : CacheEntry → Bool} {x : CacheKey × CacheEntry} :
    x ∈ (c.purge counts).entries ↔ x ∈ c.entries ∧ counts x.2 := by
  simp [purge, List.mem_filter]

/-- An entry that counts survives a purge. -/
theorem entry_purge {counts : CacheEntry → Bool} (h : c.added? key = some entry)
    (hc : counts entry) : ColumnCache.added? (c.purge counts) key = some entry := by
  rw [ added?, List.lookup_eq_some_iff] at h ⊢
  obtain ⟨before, after, split, absent⟩ := h
  refine ⟨before.filter fun x => counts x.2, after.filter fun x => counts x.2, ?_, ?_⟩
  · simp [purge, split, hc]
  · exact fun x mem => absent x (List.mem_filter.mp mem).1

end ColumnCache

namespace Catalog

variable {c d : Catalog} {r : Resolver} {property : Property} {p : ProviderId} {k : CacheId}

section Held

variable {α : Type} {name : String} {a : α} {held : List (String × α)} {x : String × α}

theorem mem_put : x ∈ put name a held ↔ x = (name, a) ∨ x ∈ held ∧ x.1 ≠ name := by
  simp [put, List.mem_filter]

theorem mem_remove : x ∈ remove name held ↔ x ∈ held ∧ x.1 ≠ name := by
  simp [remove, List.mem_filter]

theorem any_put {f : String × α → Bool} (h : (put name a held).any f) :
    f (name, a) ∨ held.any f := by
  obtain ⟨x, mem, hx⟩ := List.any_eq_true.mp h
  rcases mem_put.mp mem with rfl | ⟨mem, -⟩
  · exact Or.inl hx
  · exact Or.inr (List.any_eq_true.mpr ⟨x, mem, hx⟩)

theorem any_remove {f : String × α → Bool} (h : (remove name held).any f) : held.any f := by
  obtain ⟨x, mem, hx⟩ := List.any_eq_true.mp h
  exact List.any_eq_true.mpr ⟨x, (mem_remove.mp mem).1, hx⟩

end Held

/-! ## Entries -/

/-- Where a provider is kept. -/
def address? (c : Catalog) (p : ProviderId) : Option Address := c.providers[p]?.map (·.address)

/-- The entry of a cache for a property of a provider, whether or not it counts. -/
def stored? (c : Catalog) (r : Resolver) (property : Property) : Option CacheEntry := do
  let address ← c.address? r.provider
  let cache ← c.caches[r.cache]?
  cache.added? ⟨address, property⟩

theorem address?_isSome : (c.address? p).isSome ↔ p < c.providers.length := by
  simp [address?]

theorem stored?_eq_some_iff {entry : CacheEntry} : c.stored? r property = some entry ↔
    ∃ address cache, c.address? r.provider = some address ∧ c.caches[r.cache]? = some cache
      ∧ cache.added? ⟨address, property⟩ = some entry := by
  simp only [stored?, Option.bind_eq_bind, Option.bind_eq_some_iff]
  constructor
  · rintro ⟨address, kept, cache, there, found⟩
    exact ⟨address, cache, kept, there, found⟩
  · rintro ⟨address, cache, kept, there, found⟩
    exact ⟨address, kept, cache, there, found⟩

theorem cached?_eq (c : Catalog) (r : Resolver) (property : Property) : c.cached? r property =
    (c.stored? r property).bind fun entry => if c.isLive entry then some entry.column else none := by
  rw [cached?, stored?, address?]
  cases c.providers[r.provider]? with
  | none => rfl
  | some provider =>
      cases c.caches[r.cache]? with
      | none => rfl
      | some cache =>
          show (cache.added? ⟨provider.address, property⟩).bind (fun entry =>
              Option.bind (if c.isLive entry then some () else none) fun _ => some entry.column)
            = (cache.added? ⟨provider.address, property⟩).bind _
          refine Option.bind_congr fun entry _ => ?_
          by_cases live : c.isLive entry
          · rw [if_pos live, if_pos live]
            rfl
          · rw [if_neg live, if_neg live]
            rfl

/-- A request is answered from the cache when the cache has an entry that counts. -/
theorem cached?_eq_some_iff {column : ColumnId} : c.cached? r property = some column ↔
    ∃ entry, c.stored? r property = some entry ∧ c.isLive entry ∧ entry.column = column := by
  simp [cached?_eq, Option.bind_eq_some_iff]

theorem isProviderAlive_iff : c.isProviderAlive p ↔
    c.providerHandles.any (·.2 = p) ∨ c.resolvers.any (·.2.provider = p) := Bool.or_eq_true_iff

theorem isCacheAlive_iff : c.isCacheAlive k ↔
    k = 0 ∨ c.cacheNames.any (·.2 = k) ∨ c.resolvers.any (·.2.cache = k) := by
  simp only [isCacheAlive, Bool.or_eq_true, decide_eq_true_eq, or_assoc]

theorem isLive_iff {entry : CacheEntry} :
    c.isLive entry ↔ c.isProviderAlive entry.provider ∧ c.isColumnAlive entry.column := by
  simp [isLive]

theorem serves_iff : c.serves r ↔ c.isProviderAlive r.provider ∧ c.isCacheAlive r.cache := by
  simp [serves]

/-- The provider and the cache of a resolver that is held live. -/
theorem serves_of_mem {name : String} (h : (name, r) ∈ c.resolvers) : c.serves r := by
  refine serves_iff.mpr ⟨isProviderAlive_iff.mpr (Or.inr ?_),
    isCacheAlive_iff.mpr (Or.inr (Or.inr ?_))⟩
  · exact List.any_eq_true.mpr ⟨_, h, decide_eq_true rfl⟩
  · exact List.any_eq_true.mpr ⟨_, h, decide_eq_true rfl⟩

/-- An address that is not in use is not that of a provider that lives. -/
theorem address?_ne_of_unused {address : Address} (unused : c.isInUse address = false)
    (alive : c.isProviderAlive p) (small : p < c.providers.length) :
    c.address? p ≠ some address := by
  intro same
  have used : c.isInUse address := by
    refine List.any_eq_true.mpr ⟨p, List.mem_range.mpr small, ?_⟩
    have here : c.providers[p]?.map (·.address) = some address := same
    simp [isReferred, alive, here]
  simp [used] at unused

theorem mem_addresses_of_used {address : Address} (used : c.isInUse address) :
    address ∈ c.providers.map (·.address) := by
  obtain ⟨p, -, kept⟩ := List.any_eq_true.mp used
  have here : c.providers[p]?.map (·.address) = some address :=
    eq_of_beq (Bool.and_eq_true_iff.mp kept).2
  rw [← List.getElem?_map] at here
  exact List.mem_of_getElem? here

/-- The address that a new provider is given is not in use. -/
theorem isInUse_freshAddress (c : Catalog) : c.isInUse c.freshAddress = false := by
  unfold freshAddress
  cases found : (List.range c.providers.length).find? fun a => !c.isInUse a with
  | some address => simpa using List.find?_some found
  | none =>
      refine Bool.eq_false_iff.mpr fun used => ?_
      -- There would be more addresses in use than there are providers.
      have all : List.range (c.providers.length + 1) ⊆ c.providers.map (·.address) := by
        intro a ha
        rcases Nat.lt_succ_iff_lt_or_eq.mp (List.mem_range.mp ha) with small | rfl
        · have passed := List.find?_eq_none.mp found a (List.mem_range.mpr small)
          exact mem_addresses_of_used (by simpa using passed)
        · exact mem_addresses_of_used used
      have many := (List.subperm_of_subset List.nodup_range all).length_le
      rw [List.length_range, List.length_map] at many
      exact absurd many (Nat.not_succ_le_self _)

/-- Counting a lookup changes nothing of a provider but its count. -/
theorem map_countLookup {α : Type} (c : Catalog) (p : ProviderId) {f : Provider → α}
    (blind : ∀ q n, f { q with lookups := n } = f q) :
    (c.countLookup p).providers.map f = c.providers.map f := by
  refine List.ext_getElem? fun i => ?_
  simp only [countLookup, List.getElem?_map, List.getElem?_modify]
  split <;> cases c.providers[i]? <;> simp [blind]

/-! ## A new provider -/

theorem address?_addProviderAt {address : Address} {name : String} {source : ColumnSource}
    (small : p < c.providers.length) :
    (c.addProviderAt address name source).address? p = c.address? p := by
  simp [addProviderAt, address?, List.getElem?_append_left small]

theorem address?_addProviderAt_new {address : Address} {name : String} {source : ColumnSource} :
    (c.addProviderAt address name source).address? c.providers.length = some address := by
  simp [addProviderAt, address?]

theorem isProviderAlive_addProviderAt {address : Address} {name : String} {source : ColumnSource}
    (h : (c.addProviderAt address name source).isProviderAlive p) :
    p = c.providers.length ∨ c.isProviderAlive p := by
  rcases isProviderAlive_iff.mp h with held | used
  · rcases any_put held with same | held
    · exact Or.inl (of_decide_eq_true same).symm
    · exact Or.inr (isProviderAlive_iff.mpr (Or.inl held))
  · exact Or.inr (isProviderAlive_iff.mpr (Or.inr used))

/-! ## The caches after a request and after a purge -/

theorem caches_handOut {address : Address} (here : c.address? r.provider = some address)
    (property : Property) (column : Column) : (c.handOut r property column).2.caches
      = c.caches.modify r.cache (·.put ⟨address, property⟩ ⟨r.provider, c.columns.length⟩) := by
  have address : c.providers[r.provider]?.map (·.address) = some address := here
  simp [handOut, address]

/-- An entry is the one that was put in, or was there before. -/
theorem mem_caches_handOut {address : Address} (here : c.address? r.provider = some address)
    {column : Column} {cache : ColumnCache} {x : CacheKey × CacheEntry}
    (there : (c.handOut r property column).2.caches[k]? = some cache) (mem : x ∈ cache.entries) :
    (k = r.cache ∧ x = (⟨address, property⟩, ⟨r.provider, c.columns.length⟩))
      ∨ ∃ before, c.caches[k]? = some before ∧ x ∈ before.entries := by
  rw [caches_handOut here] at there
  obtain ⟨before, was, rfl⟩ := getElem?_modify_eq_some_iff.mp there
  by_cases same : r.cache = k
  · rw [if_pos same] at mem
    rcases ColumnCache.mem_put.mp mem with new | ⟨mem, -⟩
    · exact Or.inl ⟨same.symm, new⟩
    · exact Or.inr ⟨before, was, mem⟩
  · rw [if_neg same] at mem
    exact Or.inr ⟨before, was, mem⟩

theorem stored?_handOut_self {address : Address} (here : c.address? r.provider = some address)
    (small : r.cache < c.caches.length) (property : Property) (column : Column) :
    (c.handOut r property column).2.stored? r property = some ⟨r.provider, c.columns.length⟩ := by
  have there := List.getElem?_eq_getElem small
  rw [stored?_eq_some_iff, caches_handOut here]
  refine ⟨address, _, here, getElem?_modify_eq_some_iff.mpr ⟨_, there, rfl⟩, ?_⟩
  rw [if_pos rfl, ColumnCache.entry_put_self]

/-- An entry stays as it is unless the new one is put into its place. -/
theorem stored?_handOut {address : Address} (here : c.address? r.provider = some address)
    {s : Resolver} {asked : Property} {entry : CacheEntry} (column : Column)
    (other : s.cache = r.cache → c.address? s.provider = some address → asked ≠ property)
    (found : c.stored? s asked = some entry) :
    (c.handOut r property column).2.stored? s asked = some entry := by
  obtain ⟨there, cache, at_, was, found⟩ := stored?_eq_some_iff.mp found
  rw [stored?_eq_some_iff, caches_handOut here]
  refine ⟨there, _, at_, getElem?_modify_eq_some_iff.mpr ⟨cache, was, rfl⟩, ?_⟩
  by_cases same : r.cache = s.cache
  · have apart : (⟨there, asked⟩ : CacheKey) ≠ ⟨address, property⟩ := by
      intro key
      obtain ⟨rfl, again⟩ := CacheKey.mk.inj key
      exact other same.symm at_ again
    rw [if_pos same, ColumnCache.entry_put_of_ne apart, found]
  · rw [if_neg same, found]

theorem caches_purge (c : Catalog) (k : CacheId) :
    (c.purge k).2.caches = c.caches.modify k (·.purge c.isLive) := by
  refine List.ext_getElem? fun j => ?_
  rw [purge, List.getElem?_set, List.getElem?_modify]
  by_cases same : k = j
  · subst same
    cases there : c.caches[k]? with
    | none => simp [List.getElem?_eq_none_iff.mp there]
    | some cache => simp [(List.getElem?_eq_some_iff.mp there).1]
  · simp [same]

theorem mem_caches_purge {j : CacheId} {cache : ColumnCache} {x : CacheKey × CacheEntry}
    (there : (c.purge k).2.caches[j]? = some cache) (mem : x ∈ cache.entries) :
    ∃ before, c.caches[j]? = some before ∧ x ∈ before.entries := by
  rw [caches_purge] at there
  obtain ⟨before, was, rfl⟩ := getElem?_modify_eq_some_iff.mp there
  refine ⟨before, was, ?_⟩
  by_cases same : k = j
  · rw [if_pos same] at mem
    exact (ColumnCache.mem_purge.mp mem).1
  · rwa [if_neg same] at mem

/-- An entry that counts stays where it is. -/
theorem stored?_purge {entry : CacheEntry} (k : CacheId) (found : c.stored? r property = some entry)
    (live : c.isLive entry) : (c.purge k).2.stored? r property = some entry := by
  obtain ⟨address, cache, at_, was, found⟩ := stored?_eq_some_iff.mp found
  rw [stored?_eq_some_iff, caches_purge]
  refine ⟨address, _, at_, getElem?_modify_eq_some_iff.mpr ⟨cache, was, rfl⟩, ?_⟩
  by_cases same : k = r.cache
  · rw [if_pos same]
    exact ColumnCache.entry_purge found live
  · rw [if_neg same, found]

/-! ## Handles -/

/-- Whether a catalog has what another one has, and nothing lives in it that does not live in the
other one. -/
structure Within (d c : Catalog) : Prop where
  addresses : d.providers.map (·.address) = c.providers.map (·.address)
  columns : d.columns = c.columns
  caches : d.caches = c.caches
  provider : ∀ p, d.isProviderAlive p → c.isProviderAlive p
  cache : ∀ k, d.isCacheAlive k → c.isCacheAlive k

namespace Within

theorem address? (h : Within d c) (p : ProviderId) : d.address? p = c.address? p := by
  have here := congrArg (·[p]?) h.addresses
  simpa [Catalog.address?] using here

theorem length (h : Within d c) : d.providers.length = c.providers.length := by
  simpa using congrArg List.length h.addresses

theorem stored? (h : Within d c) (r : Resolver) (property : Property) :
    d.stored? r property = c.stored? r property := by
  simp [Catalog.stored?, h.address?, h.caches]

theorem refl (c : Catalog) : Within c c := ⟨rfl, rfl, rfl, fun _ h => h, fun _ h => h⟩

theorem holdProvider (name : String) (alive : c.isProviderAlive p) :
    Within (c.holdProvider name p) c := by
  refine ⟨rfl, rfl, rfl, fun q h => ?_, fun _ h => h⟩
  rcases isProviderAlive_iff.mp h with held | used
  · rcases any_put held with same | held
    · exact of_decide_eq_true same ▸ alive
    · exact isProviderAlive_iff.mpr (Or.inl held)
  · exact isProviderAlive_iff.mpr (Or.inr used)

theorem holdCache (name : String) (alive : c.isCacheAlive k) : Within (c.holdCache name k) c := by
  refine ⟨rfl, rfl, rfl, fun _ h => h, fun j h => ?_⟩
  rcases isCacheAlive_iff.mp h with shared | held | used
  · exact isCacheAlive_iff.mpr (Or.inl shared)
  · rcases any_put held with same | held
    · exact of_decide_eq_true same ▸ alive
    · exact isCacheAlive_iff.mpr (Or.inr (Or.inl held))
  · exact isCacheAlive_iff.mpr (Or.inr (Or.inr used))

theorem addResolver (name : String) (alive : c.serves r) : Within (c.addResolver name r) c := by
  obtain ⟨provider, cache⟩ := serves_iff.mp alive
  refine ⟨rfl, rfl, rfl, fun q h => ?_, fun j h => ?_⟩
  · rcases isProviderAlive_iff.mp h with held | used
    · exact isProviderAlive_iff.mpr (Or.inl held)
    · rcases any_put used with same | used
      · exact of_decide_eq_true same ▸ provider
      · exact isProviderAlive_iff.mpr (Or.inr used)
  · rcases isCacheAlive_iff.mp h with shared | held | used
    · exact isCacheAlive_iff.mpr (Or.inl shared)
    · exact isCacheAlive_iff.mpr (Or.inr (Or.inl held))
    · rcases any_put used with same | used
      · exact of_decide_eq_true same ▸ cache
      · exact isCacheAlive_iff.mpr (Or.inr (Or.inr used))

theorem hold (c : Catalog) (name : String) (column : ColumnId) : Within (c.hold name column) c :=
  ⟨rfl, rfl, rfl, fun _ h => h, fun _ h => h⟩

theorem release (c : Catalog) (name : String) : Within (c.release name) c := by
  refine ⟨rfl, rfl, rfl, fun q h => ?_, fun j h => ?_⟩
  · exact isProviderAlive_iff.mpr ((isProviderAlive_iff.mp h).imp any_remove any_remove)
  · exact isCacheAlive_iff.mpr ((isCacheAlive_iff.mp h).imp_right (Or.imp_right any_remove))

theorem releaseCache (c : Catalog) (name : String) : Within (c.releaseCache name) c := by
  refine ⟨rfl, rfl, rfl, fun _ h => h, fun j h => ?_⟩
  exact isCacheAlive_iff.mpr ((isCacheAlive_iff.mp h).imp_right (Or.imp_left any_remove))

theorem countLookup (c : Catalog) (p : ProviderId) : Within (c.countLookup p) c :=
  ⟨map_countLookup c p fun _ _ => rfl, rfl, rfl, fun _ h => h, fun _ h => h⟩

end Within

theorem isColumnAlive_hold {name : String} {column id : ColumnId}
    (h : (c.hold name column).isColumnAlive id) : c.isColumnAlive id ∨ id = column := by
  rcases any_put h with same | held
  · exact Or.inr (of_decide_eq_true same).symm
  · exact Or.inl held

theorem isColumnAlive_release {name : String} {id : ColumnId}
    (h : (c.release name).isColumnAlive id) : c.isColumnAlive id := any_remove h

end Catalog

end QueryForest
