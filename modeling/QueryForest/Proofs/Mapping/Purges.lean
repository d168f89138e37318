import QueryForest.Proofs.Mapping.Resolution

set_option autoImplicit false

/-!
# What callers can tell apart

A caller sees what its requests return and whether they load. Neither depends on which entries the
caches still have or where the providers are kept: two catalogs that differ in nothing else, and of
which the same columns have been given out, answer all later requests alike. So a purge is never
noticed.
-/

namespace QueryForest

namespace Catalog

variable {c d : Catalog} {log : List Handout} {r : Resolver} {property : Property}

/-- An action without the address that it names. -/
def Action.unaddressed : Action → Action
  | .provider name _ source => .provider name 0 source
  | a => a

theorem Action.eq_of_unaddressed {a b : Action} (h : a.unaddressed = b.unaddressed) :
    a = b ∨ ∃ name address address' source,
      a = .provider name address source ∧ b = .provider name address' source := by
  cases a with
  | provider name address source =>
      cases b with
      | provider name' address' source' =>
          obtain ⟨rfl, -, rfl⟩ := Action.provider.inj h
          exact Or.inr ⟨name, address, address', source, rfl, rfl⟩
      | _ => exact absurd h nofun
  | _ =>
      cases b with
      | provider name' address' source' => exact absurd h nofun
      | _ => exact Or.inl h

/-- Whether two catalogs differ at most in the entries of their caches, the addresses of their
providers and how often lookups have been counted. -/
structure Alike (c d : Catalog) : Prop where
  sources : d.providerSources = c.providerSources
  columns : d.columns = c.columns
  caches : d.caches.length = c.caches.length
  providerHandles : d.providerHandles = c.providerHandles
  cacheNames : d.cacheNames = c.cacheNames
  resolvers : d.resolvers = c.resolvers
  columnHandles : d.columnHandles = c.columnHandles

namespace Alike

theorem symm (h : Alike c d) : Alike d c where
  sources := h.sources.symm
  columns := h.columns.symm
  caches := h.caches.symm
  providerHandles := h.providerHandles.symm
  cacheNames := h.cacheNames.symm
  resolvers := h.resolvers.symm
  columnHandles := h.columnHandles.symm

theorem size (h : Alike c d) : d.providers.length = c.providers.length := by
  simpa [providerSources] using congrArg List.length h.sources

theorem isColumnAlive (h : Alike c d) (id : ColumnId) :
    d.isColumnAlive id = c.isColumnAlive id := by
  rw [Catalog.isColumnAlive, h.columnHandles, Catalog.isColumnAlive]

theorem isProviderAlive (h : Alike c d) (p : ProviderId) :
    d.isProviderAlive p = c.isProviderAlive p := by
  rw [Catalog.isProviderAlive, h.providerHandles, h.resolvers, Catalog.isProviderAlive]

theorem isCacheAlive (h : Alike c d) (k : CacheId) : d.isCacheAlive k = c.isCacheAlive k := by
  rw [Catalog.isCacheAlive, h.cacheNames, h.resolvers, Catalog.isCacheAlive]

theorem serves (h : Alike c d) (r : Resolver) : d.serves r = c.serves r := by
  rw [Catalog.serves, h.isProviderAlive, h.isCacheAlive, Catalog.serves]

theorem lookup (h : Alike c d) (p : ProviderId) (property : Property) :
    d.lookup p property = c.lookup p property := by
  rw [lookup_eq, lookup_eq, mapped?, h.sources, mapped?]

/-- A purge removes nothing but entries. -/
theorem purge (c : Catalog) (k : CacheId) : Alike c (c.purge k).2 :=
  ⟨rfl, rfl, List.length_set, rfl, rfl, rfl, rfl⟩

theorem loaded (h : Alike c d) (what : Request) : d.loaded what = c.loaded what := by
  cases what with
  | load r property loaded => rfl
  | resolve r property => exact h.lookup r.provider property

theorem asked (h : Alike c d) (what : Request) : Alike (c.asked what) (d.asked what) := by
  have sources : (d.asked what).providerSources = (c.asked what).providerSources := by
    rw [providerSources_asked, providerSources_asked, h.sources]
  cases what with
  | load r property loaded => exact h
  | resolve r property => exact { h with sources }

/-- The same columns have been given out and live, so the caches have the same columns. -/
theorem cached? (h : Alike c d) (hc : Sound c (c.isColumnAlive ·) log)
    (hd : Sound d (d.isColumnAlive ·) log) (alive : c.isProviderAlive r.provider) :
    d.cached? r property = c.cached? r property := by
  refine Option.ext fun column => ?_
  rw [hd.cached?_iff (h.isProviderAlive _ ▸ alive), hc.cached?_iff alive, h.isColumnAlive]

theorem handOut (h : Alike c d) (r : Resolver) (property : Property) (column : Column) :
    Alike (c.handOut r property column).2 (d.handOut r property column).2 :=
  { h with
    columns := congrArg (· ++ [column]) h.columns
    caches := by simpa [Catalog.handOut] using h.caches }

theorem load (h : Alike c d) (same : d.cached? r property = c.cached? r property)
    (loaded : Except QueryError Column) :
    (d.load r property loaded).1 = (c.load r property loaded).1
      ∧ Alike (c.load r property loaded).2 (d.load r property loaded).2 := by
  cases found : c.cached? r property with
  | some column =>
      rw [load_of_cached found, load_of_cached (same.trans found)]
      exact ⟨rfl, h⟩
  | none =>
      rw [load_of_loads (loads_of_not_cached found),
        load_of_loads (loads_of_not_cached (same.trans found))]
      cases loaded with
      | ok column => exact ⟨by rw [h.columns], h.handOut r property column⟩
      | error e => exact ⟨rfl, h⟩

theorem answer (h : Alike c d) {what : Request} (same : d.cached? what.resolver what.property
    = c.cached? what.resolver what.property) :
    (d.answer what).1 = (c.answer what).1 ∧ Alike (c.answer what).2 (d.answer what).2 := by
  cases found : c.cached? what.resolver what.property with
  | some column =>
      rw [answer_of_cached found, answer_of_cached (same.trans found)]
      exact ⟨rfl, h⟩
  | none =>
      rw [answer_of_loads (loads_of_not_cached found),
        answer_of_loads (loads_of_not_cached (same.trans found)), h.loaded]
      refine (h.asked what).load ?_ _
      rw [cached?_asked, cached?_asked, same]

theorem keep (h : Alike c d) (name : Option String) (result : Except QueryError ColumnId) :
    Alike (c.keep name result) (d.keep name result) := by
  cases result with
  | error e => exact h
  | ok column =>
      cases name with
      | none => exact h
      | some name => exact { h with columnHandles := congrArg (put name column) h.columnHandles }

theorem addProviderAt (h : Alike c d) (address address' : Address) (name : String)
    (source : ColumnSource) :
    Alike (c.addProviderAt address name source) (d.addProviderAt address' name source) := by
  have sources (e : Catalog) (a : Address) :
      (e.addProviderAt a name source).providerSources = e.providerSources ++ [source] :=
    List.map_append
  refine { h with sources := ?_, providerHandles := ?_ }
  · rw [sources, sources, h.sources]
  · show put name d.providers.length d.providerHandles
      = put name c.providers.length c.providerHandles
    rw [h.size, h.providerHandles]

theorem addCache (h : Alike c d) (name : String) : Alike (c.addCache name) (d.addCache name) := by
  refine { h with caches := ?_, cacheNames := ?_ }
  · simpa [Catalog.addCache] using h.caches
  · show put name d.caches.length d.cacheNames = put name c.caches.length c.cacheNames
    rw [h.caches, h.cacheNames]

/-- **Catalogs that are alike stay so, and answer alike, whatever the address of a new provider.**
-/
theorem after (h : Alike c d) (hc : Sound c (c.isColumnAlive ·) log)
    (hd : Sound d (d.isColumnAlive ·) log) {a b : Action} (allowed : c.allows a)
    (same : a.unaddressed = b.unaddressed) :
    Alike (c.after a) (d.after b) ∧ d.given b = c.given a ∧ d.answered b = c.answered a := by
  obtain rfl | ⟨name, address, address', source, rfl, rfl⟩ := Action.eq_of_unaddressed same
  · cases a with
    | provider name address source => exact ⟨h.addProviderAt address address name source, rfl, rfl⟩
    | cache name => exact ⟨h.addCache name, rfl, rfl⟩
    | request what name =>
        -- The caches have the same columns, though maybe not the same entries.
        have found : d.cached? what.resolver what.property
            = c.cached? what.resolver what.property := h.cached? hc hd (serves_iff.mp allowed).1
        obtain ⟨result, alike⟩ := h.answer found
        refine ⟨?_, ?_, ?_⟩
        · show Alike ((c.answer what).2.keep name _) ((d.answer what).2.keep name _)
          rw [result]
          exact alike.keep name _
        · rw [given, given, result]
        · rw [answered, answered, result, loads, loads, found]
    | holdProvider name p =>
        exact ⟨{ h with providerHandles := congrArg (put name p) h.providerHandles }, rfl, rfl⟩
    | holdCache name cache =>
        exact ⟨{ h with cacheNames := congrArg (put name cache) h.cacheNames }, rfl, rfl⟩
    | resolver name r => exact ⟨{ h with resolvers := congrArg (put name r) h.resolvers }, rfl, rfl⟩
    | hold name column =>
        exact ⟨{ h with columnHandles := congrArg (put name column) h.columnHandles }, rfl, rfl⟩
    | release name =>
        exact ⟨{ h with
          providerHandles := congrArg (remove name) h.providerHandles
          resolvers := congrArg (remove name) h.resolvers
          columnHandles := congrArg (remove name) h.columnHandles }, rfl, rfl⟩
    | releaseCache name =>
        exact ⟨{ h with cacheNames := congrArg (remove name) h.cacheNames }, rfl, rfl⟩
    | purge cache =>
        have caches : (d.purge cache).2.caches.length = (c.purge cache).2.caches.length :=
          (purge d cache).caches.trans (h.caches.trans (purge c cache).caches.symm)
        exact ⟨{ h with caches }, rfl, rfl⟩
  · exact ⟨h.addProviderAt address address' name source, rfl, rfl⟩

/-- **Catalogs that are alike, and of which the same columns have been given out, answer all later
requests alike.** -/
theorem answers (h : Alike c d) (hc : Sound c (c.isColumnAlive ·) log)
    (hd : Sound d (d.isColumnAlive ·) log) {actions actions' : List Action}
    (admitted : c.admits actions) (admitted' : d.admits actions')
    (same : actions.map Action.unaddressed = actions'.map Action.unaddressed) :
    d.answers actions' = c.answers actions ∧ Alike (c.run actions) (d.run actions') := by
  -- By induction on both runs; the log is the same for both, so that both stay sound for it.
  induction actions generalizing c d log actions' with
  | nil =>
      obtain rfl : actions' = [] := List.map_eq_nil_iff.mp same.symm
      exact ⟨rfl, h⟩
  | cons a rest ih =>
      cases actions' with
      | nil => exact absurd same nofun
      | cons b rest' =>
          obtain ⟨first, others⟩ := List.cons.inj same
          obtain ⟨allowed, admitted⟩ := Bool.and_eq_true_iff.mp admitted
          obtain ⟨allowed', admitted'⟩ := Bool.and_eq_true_iff.mp admitted'
          obtain ⟨alike, given, answered⟩ := h.after hc hd allowed first
          obtain ⟨answers, alike⟩ :=
            ih alike (hc.after allowed) (given ▸ hd.after allowed') admitted admitted' others
          exact ⟨by rw [Catalog.answers, Catalog.answers, answered, answers], alike⟩

/-- What is done with a catalog can be done with one that is alike, at other addresses if need
be. -/
theorem exists_allowed (h : Alike c d) {a : Action} (allowed : c.allows a) :
    ∃ b, d.allows b ∧ a.unaddressed = b.unaddressed := by
  cases a with
  | provider name address source =>
      refine ⟨.provider name d.freshAddress source, ?_, rfl⟩
      rw [allows, isInUse_freshAddress]
      rfl
  | holdProvider name p => exact ⟨.holdProvider name p, (h.isProviderAlive p).trans allowed, rfl⟩
  | cache name => exact ⟨.cache name, rfl, rfl⟩
  | holdCache name cache => exact ⟨.holdCache name cache, (h.isCacheAlive cache).trans allowed, rfl⟩
  | resolver name r => exact ⟨.resolver name r, (h.serves r).trans allowed, rfl⟩
  | request what name => exact ⟨.request what name, (h.serves what.resolver).trans allowed, rfl⟩
  | hold name column => exact ⟨.hold name column, (h.isColumnAlive column).trans allowed, rfl⟩
  | release name => exact ⟨.release name, rfl, rfl⟩
  | releaseCache name => exact ⟨.releaseCache name, rfl, rfl⟩
  | purge cache => exact ⟨.purge cache, (h.isCacheAlive cache).trans allowed, rfl⟩

theorem exists_admitted (h : Alike c d) (hc : Sound c (c.isColumnAlive ·) log)
    (hd : Sound d (d.isColumnAlive ·) log) {actions : List Action} (admitted : c.admits actions) :
    ∃ actions', d.admits actions' ∧
      actions.map Action.unaddressed = actions'.map Action.unaddressed := by
  induction actions generalizing c d log with
  | nil => exact ⟨[], rfl, rfl⟩
  | cons a rest ih =>
      obtain ⟨allowed, admitted⟩ := Bool.and_eq_true_iff.mp admitted
      obtain ⟨b, allowed', first⟩ := h.exists_allowed allowed
      obtain ⟨alike, given, -⟩ := h.after hc hd allowed first
      obtain ⟨rest', admitted', others⟩ :=
        ih alike (hc.after allowed) (given ▸ hd.after allowed') admitted
      exact ⟨b :: rest', Bool.and_eq_true_iff.mpr ⟨allowed', admitted'⟩,
        List.cons_eq_cons.mpr ⟨first, others⟩⟩

end Alike

end Catalog

end QueryForest
