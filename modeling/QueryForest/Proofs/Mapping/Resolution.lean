import QueryForest.Proofs.Mapping.Runs

set_option autoImplicit false

/-!
# Resolution

As long as columns are only loaded from their providers, a resolver gives just the columns of its
own provider, whatever other providers have come and gone, and at whichever address its provider is
kept.
-/

namespace QueryForest

namespace Catalog

variable {c d : Catalog} {log : List Handout} {r : Resolver} {property : Property}
  {p : ProviderId}

/-- The source of the columns of the provider that an action begins. -/
def Action.source? : Action → Option ColumnSource
  | .provider _ _ source => some source
  | _ => none

/-- Whether an action has no column loaded but from its provider. -/
def Action.isResolution : Action → Bool
  | .request (.load _ _ _) _ => false
  | _ => true

/-- The sources of the providers that actions begin, in the order of the providers. -/
def sources (actions : List Action) : List ColumnSource := actions.filterMap Action.source?

/-- The sources of the providers of a catalog. -/
def providerSources (c : Catalog) : List ColumnSource := c.providers.map (·.source)

/-- The column that a provider maps a property to. -/
def mapped? (c : Catalog) (p : ProviderId) (property : Property) : Option Column :=
  c.providerSources[p]?.bind (·.column? property)

theorem lookup_eq (c : Catalog) (p : ProviderId) (property : Property) : c.lookup p property =
    match c.mapped? p property with
    | some column => .ok column
    | none => .error (.unresolvedProperty property.entity.name property.name) := by
  rw [lookup, mapped?, providerSources, List.getElem?_map, Option.bind_map]
  rfl

/-! ## What only grows -/

/-- Whether a catalog has the providers and the columns of another one, and maybe more. -/
structure Grown (c d : Catalog) : Prop where
  sources : c.providerSources <+: d.providerSources
  columns : c.columns <+: d.columns

namespace Grown

theorem refl (c : Catalog) : Grown c c := ⟨List.prefix_refl _, List.prefix_refl _⟩

theorem column (h : Grown c d) {id : ColumnId} {column : Column}
    (there : c.columns[id]? = some column) : d.columns[id]? = some column := by
  obtain ⟨more, same⟩ := h.columns
  rw [← same, List.getElem?_append_left (List.getElem?_eq_some_iff.mp there).1, there]

theorem mapped? (h : Grown c d) {column : Column} (there : c.mapped? p property = some column) :
    d.mapped? p property = some column := by
  obtain ⟨source, known, maps⟩ := Option.bind_eq_some_iff.mp there
  obtain ⟨more, same⟩ := h.sources
  refine Option.bind_eq_some_iff.mpr ⟨source, ?_, maps⟩
  rw [← same, List.getElem?_append_left (List.getElem?_eq_some_iff.mp known).1, known]

end Grown

/-- Loading changes no source, and puts at most one column behind the others. -/
theorem Grown.load (c : Catalog) (r : Resolver) (property : Property)
    (loaded : Except QueryError Column) : Grown c (c.load r property loaded).2
      ∧ (c.load r property loaded).2.providerSources = c.providerSources := by
  cases found : c.cached? r property with
  | some column =>
      rw [load_of_cached found loaded]
      exact ⟨.refl c, rfl⟩
  | none =>
      rw [load_of_loads (loads_of_not_cached found) loaded]
      cases loaded with
      | ok column => exact ⟨⟨List.prefix_refl _, List.prefix_append _ _⟩, rfl⟩
      | error e => exact ⟨.refl c, rfl⟩

theorem providerSources_asked (c : Catalog) (what : Request) :
    (c.asked what).providerSources = c.providerSources := by
  cases what with
  | load r property loaded => rfl
  | resolve r property => exact map_countLookup c r.provider fun _ _ => rfl

theorem Grown.answer (c : Catalog) (what : Request) : Grown c (c.answer what).2
      ∧ (c.answer what).2.providerSources = c.providerSources := by
  cases found : c.cached? what.resolver what.property with
  | some column =>
      rw [answer_of_cached found]
      exact ⟨.refl c, rfl⟩
  | none =>
      have counted := providerSources_asked c what
      have columns : (c.asked what).columns = c.columns := (Within.asked c what).columns
      obtain ⟨⟨sources, more⟩, same⟩ :=
        Grown.load (c.asked what) what.resolver what.property (c.loaded what)
      rw [answer_of_loads (loads_of_not_cached found)]
      exact ⟨⟨counted ▸ sources, columns ▸ more⟩, same.trans counted⟩

theorem keep_eq (c : Catalog) (name : Option String) (result : Except QueryError ColumnId) :
    ∃ held, c.keep name result = { c with columnHandles := held } := by
  cases result with
  | error e => exact ⟨_, rfl⟩
  | ok column =>
      cases name with
      | none => exact ⟨_, rfl⟩
      | some name => exact ⟨_, rfl⟩

theorem Grown.after (c : Catalog) (a : Action) : Grown c (c.after a)
      ∧ (c.after a).providerSources = c.providerSources ++ a.source?.toList := by
  cases a with
  | provider name address source =>
      have more : (c.addProviderAt address name source).providerSources
          = c.providerSources ++ [source] := List.map_append
      exact ⟨⟨more ▸ List.prefix_append _ _, List.prefix_refl _⟩, more⟩
  | request what name =>
      obtain ⟨held, same⟩ := keep_eq (c.answer what).2 name (c.answer what).1
      obtain ⟨⟨sources, columns⟩, kept⟩ := Grown.answer c what
      rw [show c.after (.request what name) = _ from same]
      exact ⟨⟨sources, columns⟩, kept.trans (List.append_nil _).symm⟩
  | _ => exact ⟨⟨List.prefix_refl _, List.prefix_refl _⟩, (List.append_nil _).symm⟩

/-- The providers of a catalog are those that the actions of its run began. -/
theorem providerSources_run (c : Catalog) (actions : List Action) :
    (c.run actions).providerSources = c.providerSources ++ sources actions := by
  induction actions generalizing c with
  | nil => exact (List.append_nil _).symm
  | cons a rest ih =>
      have tail := ih (c.after a)
      rw [(Grown.after c a).2, List.append_assoc] at tail
      rw [show (c.run (a :: rest)).providerSources = _ from tail, sources, sources,
        List.filterMap_cons]
      cases a.source? <;> rfl

/-! ## What is given out -/

/-- Whether all that was given out is what the providers map the properties to. -/
def Genuine (c : Catalog) (log : List Handout) : Prop :=
  ∀ h ∈ log, ∃ column, c.columns[h.column]? = some column
    ∧ c.mapped? h.resolver.provider h.property = some column

namespace Genuine

theorem grown (h : Genuine c log) (more : Grown c d) : Genuine d log := by
  intro x hx
  obtain ⟨column, there, maps⟩ := h x hx
  exact ⟨column, more.column there, more.mapped? maps⟩

theorem append {more : List Handout} (h : Genuine c log) (hm : Genuine c more) :
    Genuine c (log ++ more) := by
  intro x hx
  rcases List.mem_append.mp hx with hx | hx
  · exact h x hx
  · exact hm x hx

/-- **A request that loads from the provider gives the column that the provider maps the property
to, or else fails.** -/
theorem resolve (h : Genuine c log) (sound : Sound c (c.isColumnAlive ·) log) (serves : c.serves r)
    (property : Property) :
    match c.mapped? r.provider property with
    | some column => ∃ id, (c.resolve r property).1 = .ok id
        ∧ (c.resolve r property).2.columns[id]? = some column
    | none => (c.resolve r property).1
        = .error (.unresolvedProperty property.entity.name property.name) := by
  cases found : c.cached? r property with
  | some id =>
      obtain ⟨given, -⟩ := (sound.cached?_iff (serves_iff.mp serves).1).mp found
      -- The column is from an earlier request to the same provider, which was genuine.
      obtain ⟨column, there, maps⟩ := h _ given
      have step : c.answer (.resolve r property) = (.ok id, c) := answer_of_cached found
      rw [maps, show c.resolve r property = _ from step]
      exact ⟨id, rfl, there⟩
  | none =>
      have loads := loads_of_not_cached found
      have step : c.answer (.resolve r property)
          = (c.asked (.resolve r property)).load r property (c.lookup r.provider property) :=
        answer_of_loads loads
      rw [show c.resolve r property = _ from step,
        load_of_loads ((loads_asked c _ r property).trans loads), lookup_eq]
      cases c.mapped? r.provider property with
      | none => rfl
      | some column => exact ⟨_, rfl, List.getElem?_concat_length⟩

theorem after (h : Genuine c log) (sound : Sound c (c.isColumnAlive ·) log) {a : Action}
    (allowed : c.allows a) (own : a.isResolution) : Genuine (c.after a) (log ++ c.given a) := by
  -- What was given out before stays genuine, since providers and columns are only added.
  refine (h.grown (Grown.after c a).1).append ?_
  cases a with
  | request what name =>
      cases what with
      | load r property loaded => exact absurd own nofun
      | resolve r property =>
          have serves : c.serves r := allowed
          have resolved := h.resolve sound serves property
          intro x hx
          have hx : x ∈ handed r property (c.resolve r property).1 := hx
          cases maps : c.mapped? r.provider property with
          | none =>
              rw [maps] at resolved
              rw [resolved] at hx
              exact absurd hx List.not_mem_nil
          | some column =>
              rw [maps] at resolved
              obtain ⟨id, result, there⟩ := resolved
              rw [result] at hx
              obtain rfl := List.mem_singleton.mp hx
              obtain ⟨held, same⟩ := keep_eq (c.resolve r property).2 name (c.resolve r property).1
              refine ⟨column, ?_, (Grown.after c _).1.mapped? maps⟩
              rw [show c.after (.request (.resolve r property) name) = _ from same]
              exact there
  | _ => exact fun _ hx => absurd hx List.not_mem_nil

theorem run (h : Genuine c log) (sound : Sound c (c.isColumnAlive ·) log) {actions : List Action}
    (admitted : c.admits actions) (own : ∀ a ∈ actions, a.isResolution) :
    Genuine (c.run actions) (log ++ c.handouts actions) := by
  induction actions generalizing c log with
  | nil => rwa [handouts, List.append_nil]
  | cons a rest ih =>
      obtain ⟨allowed, admitted⟩ := Bool.and_eq_true_iff.mp admitted
      rw [handouts, ← List.append_assoc]
      exact ih (h.after sound allowed (own a List.mem_cons_self)) (sound.after allowed) admitted
        fun b hb => own b (List.mem_cons_of_mem _ hb)

end Genuine

/-- **After every run in which columns are only loaded from their providers, a resolver whose
provider and cache live, as those of every resolver that is held do, gives a column just for the
properties that its own provider maps, and the very column that the provider maps them to. For any
other property it names the entity and the property.** -/
theorem resolve_run {actions : List Action} (admitted : empty.admits actions)
    (own : ∀ a ∈ actions, a.isResolution) {r : Resolver} (serves : (empty.run actions).serves r)
    (property : Property) :
    ∃ source, (sources actions)[r.provider]? = some source ∧
      match source.column? property with
      | some column => ∃ id, ((empty.run actions).resolve r property).1 = .ok id
          ∧ ((empty.run actions).resolve r property).2.columns[id]? = some column
      | none => ((empty.run actions).resolve r property).1
          = .error (.unresolvedProperty property.entity.name property.name) := by
  have sound := sound_run admitted
  have genuine : Genuine (empty.run actions) (empty.handouts actions) := by
    have nothing : Genuine empty [] := fun _ hx => absurd hx List.not_mem_nil
    simpa using nothing.run .empty admitted own
  have all : (empty.run actions).providerSources = sources actions := providerSources_run _ _
  -- The provider of the resolver is one of those that the actions began.
  have small := sound.provider_lt _ (serves_iff.mp serves).1
  have known : r.provider < (sources actions).length := by
    rwa [← all, providerSources, List.length_map]
  refine ⟨_, List.getElem?_eq_getElem known, ?_⟩
  have resolved := genuine.resolve sound serves property
  rwa [mapped?, all, List.getElem?_eq_getElem known] at resolved

/-- The owner of an account. -/
def ownerName : Property := ⟨⟨"Account", "Account", "account"⟩, "ownerName"⟩

/-- Accounts whose owners are kept in a column. -/
def accounts (column : String) : Registry :=
  ⟨[("Account", ⟨"Account", "account", [⟨"ownerName", column, .varChar⟩]⟩)]⟩

/-- A provider is let go of while a column of it is held, and another one begins at its address
and uses the same cache. -/
def moved : List Action :=
  [.provider "first" 0 (accounts "owner_name").source,
    .cache "shared",
    .resolver "before" ⟨0, 1⟩,
    .request (.resolve ⟨0, 1⟩ ownerName) (some "held"),
    .release "first",
    .release "before",
    .purge 1,
    .provider "second" 0 (accounts "holder").source,
    .resolver "after" ⟨1, 1⟩]

/-- The second provider is at the address of the first one, whose column is still held, and gives
its own column. -/
theorem resolve_run_moved : empty.admits moved ∧ (∀ a ∈ moved, a.isResolution)
    ∧ (empty.run moved).serves ⟨1, 1⟩ ∧ (empty.run moved).isColumnAlive 0
    ∧ (empty.run moved).address? 0 = (empty.run moved).address? 1
    ∧ ∃ id, ((empty.run moved).resolve ⟨1, 1⟩ ownerName).1 = .ok id
      ∧ ((empty.run moved).resolve ⟨1, 1⟩ ownerName).2.columns[id]?
        = some ⟨"ownerName", "holder", .varChar⟩ := by
  have admitted : empty.admits moved := by decide +kernel
  have own : ∀ a ∈ moved, a.isResolution := by decide +kernel
  have held : ("after", ⟨1, 1⟩) ∈ (empty.run moved).resolvers := by decide +kernel
  have serves := serves_of_mem held
  refine ⟨admitted, own, serves, by decide +kernel, by decide +kernel, ?_⟩
  obtain ⟨source, known, gives⟩ := resolve_run admitted own serves ownerName
  obtain rfl : (accounts "holder").source = source := Option.some.inj known
  have maps : (accounts "holder").source.column? ownerName
      = some ⟨"ownerName", "holder", .varChar⟩ := by decide +kernel
  rwa [maps] at gives

end Catalog

end QueryForest
