import QueryForest.Proofs.Mapping.Purges

set_option autoImplicit false

/-!
# Requests and purges along a run

What the requests of a run come to, in terms of the columns that have been given out and of what
lives: the caches, their entries and the addresses do not show. A column is loaded just when none
that was given out for the property lives, and a purge is never noticed.
-/

namespace QueryForest

namespace Catalog

variable {c : Catalog} {log : List Handout}

/-- What a request comes to when some columns have been given out before. -/
structure Serving (c : Catalog) (log : List Handout) (what : Request) : Prop where
  /-- A column is loaded just when none that was given out lives. -/
  loads : c.loads what.resolver what.property ↔
    ∀ column, ⟨what.resolver, what.property, column⟩ ∈ log → ¬ c.isColumnAlive column
  /-- A column that was given out and lives is given again, and nothing changes. -/
  again : ∀ column, ⟨what.resolver, what.property, column⟩ ∈ log → c.isColumnAlive column →
    c.answer what = (.ok column, c)
  /-- What has been loaded is given out as a new column. -/
  fresh : c.loads what.resolver what.property → ∀ column, c.loaded what = .ok column →
    ∃ id, (c.answer what).1 = .ok id ∧ (c.answer what).2.columns[id]? = some column
      ∧ (∀ h ∈ log, h.column ≠ id) ∧ (c.answer what).2.providers = (c.asked what).providers
  /-- A failure to load leaves all entries as they are, and the next request loads again. -/
  failed : c.loads what.resolver what.property → ∀ e, c.loaded what = .error e →
    c.answer what = (.error e, c.asked what) ∧ (c.asked what).caches = c.caches
      ∧ (c.asked what).loads what.resolver what.property

theorem Sound.serving (h : Sound c (c.isColumnAlive ·) log) {what : Request}
    (serves : c.serves what.resolver) : Serving c log what := by
  have alive := (serves_iff.mp serves).1
  have asked (loads : c.loads what.resolver what.property) :
      (c.asked what).loads what.resolver what.property :=
    (loads_asked c what _ _).trans loads
  have same := Within.asked c what
  refine ⟨h.loads_iff alive, ?again, ?fresh, ?failed⟩
  case again =>
    intro column given held
    exact answer_of_cached ((h.cached?_iff alive).mpr ⟨given, held⟩)
  case fresh =>
    intro loads column loaded
    rw [answer_of_loads loads, load_of_loads (asked loads), loaded]
    refine ⟨_, rfl, List.getElem?_concat_length, fun x hx => ?_, rfl⟩
    exact same.columns ▸ Nat.ne_of_lt (h.log_lt x hx).2
  case failed =>
    intro loads e loaded
    rw [answer_of_loads loads, load_of_loads (asked loads), loaded]
    exact ⟨rfl, same.caches, asked loads⟩

/-- What a purge of a cache does. -/
structure Purging (c : Catalog) (cache : CacheId) : Prop where
  /-- It gives the number of the entries of which the provider or the column is gone. -/
  number : (c.purge cache).1 = (c.caches[cache]?.getD .empty).entries.countP fun x =>
    !(c.isProviderAlive x.2.provider && c.isColumnAlive x.2.column)
  /-- It removes just these entries, and changes nothing else. -/
  kept : (c.purge cache).2 = { c with
    caches := c.caches.modify cache fun cache => ⟨cache.entries.filter fun x =>
      c.isProviderAlive x.2.provider && c.isColumnAlive x.2.column⟩ }

theorem purging (c : Catalog) (cache : CacheId) : Purging c cache := by
  constructor
  case number =>
    let entries := (c.caches[cache]?.getD .empty).entries
    have all := List.length_eq_countP_add_countP (fun x => c.isLive x.2) (l := entries)
    show entries.length - (entries.filter fun x => c.isLive x.2).length
      = entries.countP fun x => !c.isLive x.2
    rw [← List.countP_eq_length_filter]
    simp only [Bool.not_eq_true, Bool.decide_eq_false] at all
    omega
  case kept =>
    have caches : (c.purge cache).2 = { c with caches := (c.purge cache).2.caches } := rfl
    rw [caches, c.caches_purge cache]
    rfl

/-- **Along every run, whatever other loaders than the providers give:**

* of the columns that a cache has given out for a property of a provider at most one lives,
* a request has its column loaded just when none of these lives, and otherwise gives the one that
  does; after a failure to load the entries are as before, and the next request loads again,
* a purge gives the number of the entries of which the provider or the column is gone, and removes
  just these,
* and what is done after a purge can be done without it, at other addresses if need be, and then
  all requests return the same and load the same. -/
theorem requests_run {actions : List Action} (admitted : empty.admits actions) :
    (∀ x ∈ empty.handouts actions, ∀ y ∈ empty.handouts actions, x.resolver = y.resolver →
      x.property = y.property → (empty.run actions).isColumnAlive x.column →
      (empty.run actions).isColumnAlive y.column → x.column = y.column)
    ∧ (∀ what : Request, (empty.run actions).serves what.resolver →
      Serving (empty.run actions) (empty.handouts actions) what)
    ∧ (∀ cache, Purging (empty.run actions) cache)
    ∧ ∀ cache rest, ((empty.run actions).purge cache).2.admits rest →
      (∃ rest', (empty.run actions).admits rest'
        ∧ rest.map Action.unaddressed = rest'.map Action.unaddressed)
      ∧ ∀ rest', (empty.run actions).admits rest' →
        rest.map Action.unaddressed = rest'.map Action.unaddressed →
        (empty.run actions).answers rest' = ((empty.run actions).purge cache).2.answers rest
        ∧ ((empty.run actions).run rest').columns
          = (((empty.run actions).purge cache).2.run rest).columns := by
  have sound := sound_run admitted
  refine ⟨sound.single, fun what serves => sound.serving serves, fun cache => purging _ cache, ?_⟩
  intro cache rest after
  have purged := sound.purge cache
  have alike : Alike ((empty.run actions).purge cache).2 (empty.run actions) :=
    (Alike.purge _ cache).symm
  refine ⟨alike.exists_admitted purged sound after, fun rest' without same => ?_⟩
  obtain ⟨answers, same⟩ := alike.answers purged sound after without same
  exact ⟨answers, same.columns⟩

/-- The balance of an account. -/
def balance : Property := ⟨⟨"Account", "Account", "account"⟩, "balance"⟩

/-- The column of one property is held, that of another one is let go of at once, and then fails
to be loaded again. -/
def shared : List Action :=
  [.provider "first" 0 (accounts "owner_name").source,
    .cache "shared",
    .resolver "accounts" ⟨0, 1⟩,
    .request (.resolve ⟨0, 1⟩ ownerName) (some "held"),
    .request (.load ⟨0, 1⟩ balance (.ok ⟨"balance", "amount", .decimal⟩)) none,
    .request (.load ⟨0, 1⟩ balance (.error (.config (.reported "load failed")))) none]

/-- What is done after the purge: a second provider begins, and both properties are asked for. -/
def later : List Action :=
  [.provider "second" 1 (accounts "holder").source,
    .request (.load ⟨1, 1⟩ ownerName (.ok ⟨"ownerName", "holder", .varChar⟩)) none,
    .request (.resolve ⟨0, 1⟩ ownerName) none,
    .request (.resolve ⟨0, 1⟩ balance) none]

/-- The column that is held is given again, the other one is loaded, and its entry is the one that
a purge removes. -/
theorem requests_run_purged : empty.admits shared
    ∧ (empty.run shared).answer (.resolve ⟨0, 1⟩ ownerName) = (.ok 0, empty.run shared)
    ∧ (empty.run shared).loads ⟨0, 1⟩ balance
    ∧ ((empty.run shared).purge 1).1 = 1
    ∧ ((empty.run shared).purge 1).2.admits later ∧ (empty.run shared).admits later
    ∧ (empty.run shared).answers later = ((empty.run shared).purge 1).2.answers later := by
  have admitted : empty.admits shared := by decide +kernel
  obtain ⟨-, serving, purging, unnoticed⟩ := requests_run admitted
  have held := serving (.resolve ⟨0, 1⟩ ownerName) (by decide +kernel)
  have gone := serving (.resolve ⟨0, 1⟩ balance) (by decide +kernel)
  have given : (⟨⟨0, 1⟩, ownerName, 0⟩ : Handout) ∈ empty.handouts shared := by decide +kernel
  have after : ((empty.run shared).purge 1).2.admits later := by decide +kernel
  have without : (empty.run shared).admits later := by decide +kernel
  refine ⟨admitted, held.again 0 given (by decide +kernel), gone.loads.mpr ?_, ?_, after, without,
    ((unnoticed 1 later after).2 later without rfl).1⟩
  · intro column there
    have only : ∀ h ∈ empty.handouts shared, h.property = balance → h.column = 1 := by
      decide +kernel
    obtain rfl : column = 1 := only _ there rfl
    decide +kernel
  · rw [(purging 1).number]
    decide +kernel

end Catalog

end QueryForest
