import QueryForest.Proofs.Mapping.Life

set_option autoImplicit false

/-!
# Sound catalogs

What holds of a catalog and of the columns that its caches have given out, along every run. Two
providers that live are never kept at the same address; an entry remembers a column that was given
out for the provider it names, whose address it is found by; a column that lives, of a provider
that lives, is still in the entry that it was put into, and is the only one of its kind.
-/

namespace QueryForest

namespace Catalog

variable {c d : Catalog} {live live' : ColumnId → Prop} {log : List Handout} {r : Resolver}
  {property : Property} {p : ProviderId} {k : CacheId}

/-- What holds of a catalog, of the columns that live, and of those that have been given out. -/
structure Sound (c : Catalog) (live : ColumnId → Prop) (log : List Handout) : Prop where
  provider_lt : ∀ p, c.isProviderAlive p → p < c.providers.length
  cache_lt : ∀ k, c.isCacheAlive k → k < c.caches.length
  column_lt : ∀ id, live id → id < c.columns.length
  /-- Providers that live are kept at different addresses. -/
  apart : ∀ p q, c.isProviderAlive p → c.isProviderAlive q → c.address? p = c.address? q → p = q
  log_lt : ∀ h ∈ log, h.resolver.provider < c.providers.length ∧ h.column < c.columns.length
  /-- Entries remember what was given out. -/
  entries : ∀ k cache, c.caches[k]? = some cache → ∀ x ∈ cache.entries,
    c.address? x.2.provider = some x.1.address ∧ ⟨⟨x.2.provider, k⟩, x.1.property, x.2.column⟩ ∈ log
  /-- What was given out is remembered as long as it lives and its provider does. -/
  kept : ∀ h ∈ log, c.isProviderAlive h.resolver.provider → live h.column →
    c.stored? h.resolver h.property = some ⟨h.resolver.provider, h.column⟩
  /-- At most one column lives for a cache, a provider and a property. -/
  single : ∀ h ∈ log, ∀ h' ∈ log, h.resolver = h'.resolver → h.property = h'.property →
    live h.column → live h'.column → h.column = h'.column

namespace Sound

theorem empty : Sound empty (empty.isColumnAlive ·) [] where
  provider_lt := by simp [isProviderAlive, Catalog.empty]
  cache_lt := by simp [isCacheAlive, Catalog.empty]
  column_lt := by simp [isColumnAlive, Catalog.empty]
  apart := by simp [isProviderAlive, Catalog.empty]
  log_lt := by simp
  entries := by
    intro k cache there x mem
    obtain ⟨rfl, rfl⟩ : k = 0 ∧ cache = .empty := by
      cases k <;> simp_all [Catalog.empty]
    simp [ColumnCache.empty] at mem
  kept := by simp
  single := by simp

/-! ## What a request finds -/

/-- **A request for a property of a provider that lives is answered from the cache just when a
column given out for it still lives, and then by this very column.** -/
theorem cached?_iff (h : Sound c (c.isColumnAlive ·) log) (alive : c.isProviderAlive r.provider)
    {column : ColumnId} : c.cached? r property = some column ↔
      ⟨r, property, column⟩ ∈ log ∧ c.isColumnAlive column := by
  rw [cached?_eq_some_iff]
  constructor
  · rintro ⟨entry, found, live, rfl⟩
    obtain ⟨address, cache, here, there, mem⟩ := stored?_eq_some_iff.mp found
    obtain ⟨provider, column⟩ := isLive_iff.mp live
    obtain ⟨at_, given⟩ := h.entries _ cache there _ (ColumnCache.mem_of_entry mem)
    -- The provider of the entry lives at the address of the resolver's own: it is the same one.
    have same : entry.provider = r.provider := h.apart _ _ provider alive (at_.trans here.symm)
    rw [same] at given
    exact ⟨given, column⟩
  · rintro ⟨given, column⟩
    exact ⟨_, h.kept _ given alive column, isLive_iff.mpr ⟨alive, column⟩, rfl⟩

theorem loads_iff (h : Sound c (c.isColumnAlive ·) log) (alive : c.isProviderAlive r.provider) :
    c.loads r property ↔
      ∀ column, ⟨r, property, column⟩ ∈ log → ¬ c.isColumnAlive column := by
  rw [loads, Option.isNone_iff_eq_none, Option.eq_none_iff_forall_ne_some]
  refine forall_congr' fun column => ?_
  rw [Ne, h.cached?_iff alive, not_and]

/-! ## What the actions keep -/

/-- What has been given out again is in the log already. -/
theorem log_congr {log' : List Handout} (h : Sound c live log) (same : ∀ x, x ∈ log' ↔ x ∈ log) :
    Sound c live log' where
  provider_lt := h.provider_lt
  cache_lt := h.cache_lt
  column_lt := h.column_lt
  apart := h.apart
  log_lt x hx := h.log_lt x ((same x).mp hx)
  entries k cache there x mem := (h.entries k cache there x mem).imp_right (same _).mpr
  kept x hx := h.kept x ((same x).mp hx)
  single x hx y hy := h.single x ((same x).mp hx) y ((same y).mp hy)

/-- A sound catalog stays so when less lives in it. -/
theorem within (h : Sound c live log) (less : Within d c) (fewer : ∀ id, live' id → live id) :
    Sound d live' log where
  provider_lt p alive := less.length ▸ h.provider_lt p (less.provider p alive)
  cache_lt k alive := less.caches ▸ h.cache_lt k (less.cache k alive)
  column_lt id alive := less.columns ▸ h.column_lt id (fewer id alive)
  apart p q hp hq same := by
    rw [less.address?, less.address?] at same
    exact h.apart p q (less.provider p hp) (less.provider q hq) same
  log_lt x hx := by
    rw [less.length, less.columns]
    exact h.log_lt x hx
  entries k cache there x mem := by
    rw [less.address?]
    exact h.entries k cache (less.caches ▸ there) x mem
  kept x hx provider column := by
    rw [less.stored?]
    exact h.kept x hx (less.provider _ provider) (fewer _ column)
  single x hx y hy resolver property hx' hy' :=
    h.single x hx y hy resolver property (fewer _ hx') (fewer _ hy')

/-- A provider may begin at an address that is not in use. -/
theorem addProviderAt (h : Sound c live log) {address : Address}
    (unused : c.isInUse address = false) (name : String) (source : ColumnSource) :
    Sound (c.addProviderAt address name source) live log := by
  have old {p : ProviderId} (small : p < c.providers.length) :
      (c.addProviderAt address name source).address? p = c.address? p :=
    address?_addProviderAt small
  have length : (c.addProviderAt address name source).providers.length
      = c.providers.length + 1 := by
    simp [Catalog.addProviderAt]
  have alive {p : ProviderId} (hp : (c.addProviderAt address name source).isProviderAlive p) :
      p = c.providers.length ∨ p < c.providers.length ∧ c.isProviderAlive p :=
    (isProviderAlive_addProviderAt hp).imp_right fun there => ⟨h.provider_lt p there, there⟩
  -- The address was free, so that nothing that lives is kept where the new provider is.
  have unlike {p : ProviderId} (small : p < c.providers.length) (there : c.isProviderAlive p) :
      (c.addProviderAt address name source).address? p
        ≠ (c.addProviderAt address name source).address? c.providers.length := by
    rw [old small, address?_addProviderAt_new]
    exact address?_ne_of_unused unused there small
  refine { h with
    provider_lt := ?provider_lt, apart := ?apart, log_lt := ?log_lt, entries := ?entries
    kept := ?kept }
  case provider_lt =>
    intro p hp
    rw [length]
    rcases alive hp with rfl | ⟨small, -⟩
    · exact Nat.lt_succ_self _
    · exact Nat.lt_succ_of_lt small
  case apart =>
    intro p q hp hq same
    rcases alive hp with rfl | ⟨smallP, aliveP⟩ <;> rcases alive hq with rfl | ⟨smallQ, aliveQ⟩
    · rfl
    · exact absurd same.symm (unlike smallQ aliveQ)
    · exact absurd same (unlike smallP aliveP)
    · rw [old smallP, old smallQ] at same
      exact h.apart p q aliveP aliveQ same
  case log_lt =>
    intro x hx
    rw [length]
    exact ⟨Nat.lt_succ_of_lt (h.log_lt x hx).1, (h.log_lt x hx).2⟩
  case entries =>
    intro k cache there x mem
    obtain ⟨at_, given⟩ := h.entries k cache there x mem
    exact ⟨(old (h.log_lt _ given).1).trans at_, given⟩
  case kept =>
    intro x hx provider column
    have small := (h.log_lt x hx).1
    rcases alive provider with same | ⟨-, provider⟩
    · exact absurd same (Nat.ne_of_lt small)
    · rw [stored?, old small]
      exact h.kept x hx provider column

/-- A new cache remembers nothing. -/
theorem addCache (h : Sound c live log) (name : String) : Sound (c.addCache name) live log := by
  refine { h with cache_lt := ?cache_lt, entries := ?entries, kept := ?kept }
  case cache_lt =>
    intro k alive
    have length : (c.addCache name).caches.length = c.caches.length + 1 := by
      simp [Catalog.addCache]
    rw [length]
    rcases isCacheAlive_iff.mp alive with shared | held | used
    · exact shared ▸ Nat.succ_pos _
    · rcases any_put held with same | held
      · exact of_decide_eq_true same ▸ Nat.lt_succ_self _
      · exact Nat.lt_succ_of_lt (h.cache_lt k (isCacheAlive_iff.mpr (Or.inr (Or.inl held))))
    · exact Nat.lt_succ_of_lt (h.cache_lt k (isCacheAlive_iff.mpr (Or.inr (Or.inr used))))
  case entries =>
    intro k cache there x mem
    by_cases small : k < c.caches.length
    · exact h.entries k cache ((List.getElem?_append_left small).symm.trans there) x mem
    · obtain ⟨-, rfl⟩ : k - c.caches.length = 0 ∧ ColumnCache.empty = cache := by
        simpa [Catalog.addCache, List.getElem?_append_right (Nat.le_of_not_lt small),
          List.getElem?_singleton] using there
      simp [ColumnCache.empty] at mem
  case kept =>
    intro x hx provider column
    obtain ⟨address, cache, at_, there, found⟩ :=
      stored?_eq_some_iff.mp (h.kept x hx provider column)
    refine stored?_eq_some_iff.mpr ⟨address, cache, at_, ?_, found⟩
    exact (List.getElem?_append_left (List.getElem?_eq_some_iff.mp there).1).trans there

/-- What is loaded can be given out when nothing that was given out for the property lives. -/
theorem handOut (h : Sound c live log) (serves : c.serves r)
    (none : ∀ column, ⟨r, property, column⟩ ∈ log → ¬ live column) (column : Column) :
    Sound (c.handOut r property column).2 (fun id => live id ∨ id = c.columns.length)
      (log ++ [⟨r, property, c.columns.length⟩]) := by
  obtain ⟨provider, cache⟩ := serves_iff.mp serves
  obtain ⟨address, here⟩ := Option.isSome_iff_exists.mp
    (address?_isSome.mpr (h.provider_lt _ provider))
  have length : (c.handOut r property column).2.columns.length = c.columns.length + 1 := by
    simp [Catalog.handOut]
  -- The new column is none of those that were given out before.
  have old {x : Handout} (hx : x ∈ log) (alive : live x.column ∨ x.column = c.columns.length) :
      live x.column :=
    alive.resolve_right (Nat.ne_of_lt (h.log_lt x hx).2)
  have logged {x : Handout} (hx : x ∈ log ++ [⟨r, property, c.columns.length⟩]) :
      x ∈ log ∨ x = ⟨r, property, c.columns.length⟩ := by simpa using hx
  -- Nothing that lives was given out for the same property.
  have differs {x : Handout} (hx : x ∈ log) (alive : live x.column) (resolver : x.resolver = r) :
      x.property ≠ property := by
    intro same
    obtain ⟨_, _, id⟩ := x
    subst resolver same
    exact none id hx alive
  refine { h with
    cache_lt := ?cache_lt, column_lt := ?column_lt, log_lt := ?log_lt, entries := ?entries
    kept := ?kept, single := ?single }
  case cache_lt =>
    intro k alive
    rw [caches_handOut here, List.length_modify]
    exact h.cache_lt k alive
  case column_lt =>
    intro id alive
    rw [length]
    rcases alive with alive | rfl
    · exact Nat.lt_succ_of_lt (h.column_lt id alive)
    · exact Nat.lt_succ_self _
  case log_lt =>
    intro x hx
    rw [length]
    rcases logged hx with hx | rfl
    · exact ⟨(h.log_lt x hx).1, Nat.lt_succ_of_lt (h.log_lt x hx).2⟩
    · exact ⟨h.provider_lt _ provider, Nat.lt_succ_self _⟩
  case entries =>
    intro k cache there x mem
    rcases mem_caches_handOut here there mem with ⟨rfl, rfl⟩ | ⟨before, was, mem⟩
    · exact ⟨here, List.mem_append_right _ List.mem_cons_self⟩
    · exact (h.entries k before was x mem).imp_right (List.mem_append_left _)
  case kept =>
    intro x mem alive column
    rcases logged mem with hx | rfl
    · have column := old hx column
      refine stored?_handOut here _ (fun cache at_ => ?_) (h.kept x hx alive column)
      -- Two providers that live at one address are the same.
      have one := h.apart _ _ alive provider (at_.trans here.symm)
      have same : x.resolver = r := by
        calc x.resolver = ⟨x.resolver.provider, x.resolver.cache⟩ := rfl
          _ = ⟨r.provider, r.cache⟩ := by rw [one, cache]
      exact differs hx column same
    · exact stored?_handOut_self here (h.cache_lt _ cache) _ _
  case single =>
    intro x memX y memY resolver asked aliveX aliveY
    rcases logged memX with hx | rfl <;> rcases logged memY with hy | rfl
    · exact h.single x hx y hy resolver asked (old hx aliveX) (old hy aliveY)
    · exact absurd asked (differs hx (old hx aliveX) resolver)
    · exact absurd asked.symm (differs hy (old hy aliveY) resolver.symm)
    · rfl

/-- A purge removes nothing of what lives. -/
theorem purge (h : Sound c (c.isColumnAlive ·) log) (k : CacheId) :
    Sound (c.purge k).2 (c.isColumnAlive ·) log := by
  refine { h with cache_lt := ?cache_lt, entries := ?entries, kept := ?kept }
  case cache_lt =>
    intro j alive
    rw [caches_purge, List.length_modify]
    exact h.cache_lt j alive
  case entries =>
    intro j cache there x mem
    obtain ⟨before, was, mem⟩ := mem_caches_purge there mem
    exact h.entries j before was x mem
  case kept =>
    intro x hx provider column
    exact stored?_purge k (h.kept x hx provider column) (isLive_iff.mpr ⟨provider, column⟩)

end Sound

end Catalog

end QueryForest
