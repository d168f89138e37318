import QueryForest.Proofs.Mapping.Sound

set_option autoImplicit false

/-!
# Runs of catalogs

A catalog stays sound along every run, whatever the loaders of the requests give and whichever
addresses are used again. So the cache of a request never answers with a column that was given out
for another provider, and never loads a column while one that was given out still lives.
-/

namespace QueryForest

namespace Catalog

variable {c : Catalog} {log : List Handout} {r : Resolver} {property : Property}
  {column : ColumnId} {what : Request}

/-! ## Requests, by what the cache has -/

/-- What loading gives for a request. -/
def loaded (c : Catalog) : Request → Except QueryError Column
  | .resolve r property => c.lookup r.provider property
  | .load _ _ loaded => loaded

/-- The catalog after loading for a request: a provider has counted the lookup. -/
def asked (c : Catalog) : Request → Catalog
  | .resolve r _ => c.countLookup r.provider
  | .load _ _ _ => c

theorem Within.asked (c : Catalog) (what : Request) : Within (c.asked what) c := by
  cases what with
  | resolve r property => exact .countLookup c r.provider
  | load r property loaded => exact .refl c

theorem cached?_asked (c : Catalog) (what : Request) (r : Resolver) (property : Property) :
    (c.asked what).cached? r property = c.cached? r property := by
  rw [cached?_eq, cached?_eq, (Within.asked c what).stored?]
  cases what <;> rfl

theorem loads_asked (c : Catalog) (what : Request) (r : Resolver) (property : Property) :
    (c.asked what).loads r property = c.loads r property :=
  congrArg Option.isNone (cached?_asked c what r property)

theorem lookup_countLookup (c : Catalog) (p q : ProviderId) (property : Property) :
    (c.countLookup p).lookup q property = c.lookup q property := by
  have same := congrArg (·[q]?) (map_countLookup c p (f := Provider.source) fun _ _ => rfl)
  simp only [List.getElem?_map] at same
  have maps (d : Catalog) : d.providers[q]?.bind (·.source.column? property)
      = (d.providers[q]?.map (·.source)).bind (·.column? property) := by
    rw [Option.bind_map]
    rfl
  rw [lookup, lookup, maps, same, maps]

theorem load_of_cached (h : c.cached? r property = some column)
    (loaded : Except QueryError Column) : c.load r property loaded = (.ok column, c) := by
  simp only [load, h]

theorem load_of_loads (h : c.loads r property) (loaded : Except QueryError Column) :
    c.load r property loaded = match loaded with
    | .ok column => (.ok c.columns.length, (c.handOut r property column).2)
    | .error e => (.error e, c) := by
  simp only [load, Option.isNone_iff_eq_none.mp h]
  cases loaded <;> rfl

/-- A request is answered from the cache without anything being loaded. -/
theorem answer_of_cached (h : c.cached? what.resolver what.property = some column) :
    c.answer what = (.ok column, c) := by
  cases what with
  | load r property loaded => exact load_of_cached h loaded
  | resolve r property =>
      have h : c.cached? r property = some column := h
      rw [answer, resolve, h]
      exact load_of_cached h _

/-- A request that loads hands out what loading gives. -/
theorem answer_of_loads (h : c.loads what.resolver what.property) :
    c.answer what = (c.asked what).load what.resolver what.property (c.loaded what) := by
  cases what with
  | load r property loaded => rfl
  | resolve r property =>
      have missing : c.cached? r property = none := Option.isNone_iff_eq_none.mp h
      rw [answer, resolve, missing]
      exact congrArg _ (lookup_countLookup c r.provider r.provider property)

theorem loads_of_not_cached (h : c.cached? r property = none) : c.loads r property :=
  Option.isNone_iff_eq_none.mpr h

/-! ## Soundness -/

namespace Sound

/-- What a cache gives again is in the log and lives already. -/
theorem cached (h : Sound c (c.isColumnAlive ·) log) (alive : c.isProviderAlive r.provider)
    (found : c.cached? r property = some column) :
    Sound c (fun id => c.isColumnAlive id ∨ (.ok column : Except QueryError ColumnId) = .ok id)
      (log ++ handed r property (.ok column)) := by
  obtain ⟨given, live⟩ := (h.cached?_iff alive).mp found
  -- What is given again was given before, so that it is in the log, and it lives.
  refine (h.log_congr ?_).within (.refl c) ?_
  · simp only [handed, List.mem_append, List.mem_singleton, or_iff_left_iff_imp]
    rintro x rfl
    exact given
  · rintro id (held | same)
    · exact held
    · exact Except.ok.inj same ▸ live

/-- What a request has given is in the log, and lives besides what is held. -/
theorem load (h : Sound c (c.isColumnAlive ·) log) (serves : c.serves r) (property : Property)
    (loaded : Except QueryError Column) :
    Sound (c.load r property loaded).2
      (fun id => (c.load r property loaded).2.isColumnAlive id
        ∨ (c.load r property loaded).1 = .ok id)
      (log ++ handed r property (c.load r property loaded).1) := by
  have alive := (serves_iff.mp serves).1
  cases found : c.cached? r property with
  | some column =>
      rw [load_of_cached found loaded]
      exact h.cached alive found
  | none =>
      have loads := loads_of_not_cached found
      rw [load_of_loads loads loaded]
      cases loaded with
      | ok column =>
          -- Nothing that was given out lives, or the cache would have had it.
          refine (h.handOut serves ((h.loads_iff alive).mp loads) column).within (.refl _) ?_
          exact fun id => Or.imp_right fun same => (Except.ok.inj same).symm
      | error e =>
          rw [handed, List.append_nil]
          exact h.within (.refl c) fun id held => held.resolve_right nofun

theorem answer (h : Sound c (c.isColumnAlive ·) log) (serves : c.serves what.resolver) :
    Sound (c.answer what).2
      (fun id => (c.answer what).2.isColumnAlive id ∨ (c.answer what).1 = .ok id)
      (log ++ handed what.resolver what.property (c.answer what).1) := by
  cases found : c.cached? what.resolver what.property with
  | some column =>
      rw [answer_of_cached found]
      exact h.cached (serves_iff.mp serves).1 found
  | none =>
      -- Counting a lookup changes neither what lives nor what the caches remember.
      have counted : Sound (c.asked what) ((c.asked what).isColumnAlive ·) log := by
        refine h.within (.asked c what) fun id held => ?_
        cases what <;> exact held
      have serves : (c.asked what).serves what.resolver := by
        cases what <;> exact serves
      rw [answer_of_loads (loads_of_not_cached found)]
      exact counted.load serves _ _

/-- What a request has given may be held, or let go of at once. -/
theorem keep {result : Except QueryError ColumnId}
    (h : Sound c (fun id => c.isColumnAlive id ∨ result = .ok id) log) (name : Option String) :
    Sound (c.keep name result) ((c.keep name result).isColumnAlive ·) log := by
  cases result with
  | error e => exact h.within (.refl c) fun _ held => Or.inl held
  | ok column =>
      cases name with
      | none => exact h.within (.refl c) fun _ held => Or.inl held
      | some name =>
          refine h.within (.hold c name column) fun id held => ?_
          exact (isColumnAlive_hold held).imp_right fun same => congrArg _ same.symm

/-- **An action that is allowed keeps a catalog sound.** -/
theorem after (h : Sound c (c.isColumnAlive ·) log) {a : Action} (allowed : c.allows a) :
    Sound (c.after a) ((c.after a).isColumnAlive ·) (log ++ c.given a) := by
  have same (none : c.given a = []) : log ++ c.given a = log := by rw [none, List.append_nil]
  cases a with
  | provider name address source =>
      rw [same rfl]
      exact h.addProviderAt (by simpa [allows] using allowed) name source
  | holdProvider name p =>
      rw [same rfl]
      exact h.within (.holdProvider name allowed) fun _ held => held
  | cache name =>
      rw [same rfl]
      exact h.addCache name
  | holdCache name cache =>
      rw [same rfl]
      exact h.within (.holdCache name allowed) fun _ held => held
  | resolver name r =>
      rw [same rfl]
      exact h.within (.addResolver name allowed) fun _ held => held
  | request what name =>
      -- What is given lives until the caller has held it or not.
      exact (h.answer allowed).keep name
  | hold name column =>
      rw [same rfl]
      refine h.within (.hold c name column) fun id held => ?_
      rcases isColumnAlive_hold held with held | rfl
      · exact held
      · exact allowed
  | release name =>
      rw [same rfl]
      exact h.within (.release c name) fun _ held => isColumnAlive_release held
  | releaseCache name =>
      rw [same rfl]
      exact h.within (.releaseCache c name) fun _ held => held
  | purge cache =>
      rw [same rfl]
      exact h.purge cache

theorem run (h : Sound c (c.isColumnAlive ·) log) {actions : List Action}
    (admitted : c.admits actions) :
    Sound (c.run actions) ((c.run actions).isColumnAlive ·) (log ++ c.handouts actions) := by
  -- By induction on the actions; the log grows by what each of them gives out.
  induction actions generalizing c log with
  | nil => rwa [handouts, List.append_nil]
  | cons a rest ih =>
      obtain ⟨allowed, admitted⟩ := Bool.and_eq_true_iff.mp admitted
      rw [handouts, ← List.append_assoc]
      exact ih (h.after allowed) admitted

end Sound

/-- **Every catalog that a caller can make is sound.** -/
theorem sound_run {actions : List Action} (admitted : empty.admits actions) :
    Sound (empty.run actions) ((empty.run actions).isColumnAlive ·) (empty.handouts actions) := by
  simpa using Sound.empty.run admitted

end Catalog

end QueryForest
