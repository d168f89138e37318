import QueryForest.Proofs.Mapping.Registration
import QueryForest.Proofs.Text.Repeated

set_option autoImplicit false

/-!
# Calls that registries admit and refuse

A call that enters a mapping looks at everything before it changes the registry, so a registry that refuses
a mapping stays as it was (`entering_eq`). What a registry holds after a run are therefore the mappings of
the calls that were admitted, in their order and each for an entity of its own (`Records.run`). The two ways
to look a column up agree on every registry that a run can make, and the answer to the next call is known
from the calls that were admitted before (`admission_run`).
-/

namespace QueryForest

open Text (IsFirstRepeated)

theorem Mapping.repeatedProperty?_eq_some_iff {m : Mapping} {property : String} :
    m.repeatedProperty? = some property ↔ IsFirstRepeated (m.columns.map (·.property)) property :=
  Text.firstRepeated?_nil_eq_some_iff

theorem Mapping.repeatedProperty?_eq_none_iff {m : Mapping} :
    m.repeatedProperty? = none ↔ (m.columns.map (·.property)).Nodup := by
  rw [repeatedProperty?, Text.firstRepeated?_eq_none_iff]
  simp

namespace Registry

/-! ## Entering a mapping -/

/-- Looks for a property that has come up before among the columns of a mapping. -/
def checking (name : String) : (seen : List String) → List Column → EStateM MappingError Registry Unit
  | _, [] => pure ()
  | seen, c :: columns => do
    if c.property ∈ seen then throw (.duplicateProperty name c.property)
    checking name (c.property :: seen) columns

/-- Enters a mapping into the registry that the caller holds, step by step. -/
def entering (entity : Entity) (mapping : Mapping) : EStateM MappingError Registry Unit := do
  if ((← get).mapping? entity).isSome then throw (.duplicateEntity entity.name)
  checking mapping.name [] mapping.columns
  modify fun r => ⟨r.mappings ++ [(entity.key, mapping)]⟩

theorem checking_eq (name : String) (seen : List String) (columns : List Column) (r : Registry) :
    checking name seen columns r = match Text.firstRepeated? seen (columns.map (·.property)) with
      | some property => .error (.duplicateProperty name property) r
      | none => .ok () r := by
  induction columns generalizing seen with
  | nil => rfl
  | cons c columns ih =>
      by_cases known : c.property ∈ seen
      · simp only [checking, known, if_true, List.map_cons, Text.firstRepeated?]
        rfl
      · simp only [checking, known, if_false, List.map_cons, Text.firstRepeated?]
        exact ih (c.property :: seen)

/-- **Entering a mapping changes the registry just when it succeeds**: the checks come before the change. -/
theorem entering_eq (entity : Entity) (mapping : Mapping) (r : Registry) :
    entering entity mapping r = match r.insert entity mapping with
      | .ok r' => .ok () r'
      | .error e => .error e r := by
  have start : entering entity mapping r
      = (do if (r.mapping? entity).isSome then throw (.duplicateEntity entity.name)
            checking mapping.name [] mapping.columns
            modify fun r => ⟨r.mappings ++ [(entity.key, mapping)]⟩ : EStateM _ _ _) r := rfl
  rw [start, insert]
  by_cases known : (r.mapping? entity).isSome
  · simp only [known, if_true]
    rfl
  · have checked := checking_eq mapping.name [] mapping.columns r
    simp only [known, Bool.false_eq_true, if_false, Mapping.repeatedProperty?]
    simp only [bind, EStateM.bind, checked]
    cases Text.firstRepeated? [] (mapping.columns.map (·.property)) <;> rfl

/-! ## Calls -/

/-- What a caller does with a registry. -/
inductive Call where
  | insert (entity : Entity) (mapping : Mapping)
  | register (entity : Entity) (columns : List Column)
  /-- Gives the registry away, to get it back with the entity registered. -/
  | extend (entity : Entity) (columns : List Column)

namespace Call

def entity : Call → Entity
  | insert entity _ => entity
  | register entity _ => entity
  | extend entity _ => entity

/-- The mapping that a call offers. -/
def mapping : Call → Mapping
  | insert _ mapping => mapping
  | register entity columns => ⟨entity.name, entity.table, columns⟩
  | extend entity columns => ⟨entity.name, entity.table, columns⟩

/-- The properties that a call maps, in their order. -/
def properties (c : Call) : List String := c.mapping.columns.map (·.property)

/-- Whether the caller keeps the registry when the call is refused. -/
def keeps : Call → Bool
  | extend _ _ => false
  | _ => true

def perform (c : Call) : EStateM MappingError Registry Unit := entering c.entity c.mapping

end Call

/-- The registry that the caller holds after a call. -/
def after (r : Registry) (c : Call) : Option Registry :=
  match c.perform r with
  | .ok _ r' => some r'
  | .error _ r' => if c.keeps then some r' else none

/-- The registry that the caller holds after some calls. -/
def run (r : Registry) (calls : List Call) : Option Registry := calls.foldlM after r

/-- The calls that are admitted, in their order. -/
def admitted (r : Registry) : List Call → List Call
  | [] => []
  | c :: calls =>
    match c.perform r with
    | .ok _ r' => c :: r'.admitted calls
    | .error _ r' => r'.admitted calls

variable {r r' : Registry} {c : Call} {calls : List Call}

/-- What a registry answers to a call. -/
def answer (r : Registry) : Call → Except MappingError Registry
  | .insert entity mapping => r.insert entity mapping
  | .register entity columns => r.register entity columns
  | .extend entity columns => r.register entity columns

theorem perform_eq (c : Call) (r : Registry) : c.perform r = match r.answer c with
    | .ok r' => .ok () r'
    | .error e => .error e r := by
  cases c with
  | insert entity mapping => exact entering_eq entity mapping r
  | register entity columns => exact entering_eq entity ⟨entity.name, entity.table, columns⟩ r
  | extend entity columns => exact entering_eq entity ⟨entity.name, entity.table, columns⟩ r

theorem answer_eq (c : Call) (r : Registry) : r.answer c = r.insert c.entity c.mapping := by
  cases c <;> rfl

/-- **A call has one of three outcomes**, and only one of them changes the registry. -/
theorem perform_cases (c : Call) (r : Registry) :
    ((r.mapping? c.entity).isSome ∧ c.perform r = .error (.duplicateEntity c.entity.name) r) ∨
    (r.mapping? c.entity = none ∧ ∃ property, IsFirstRepeated c.properties property ∧
      c.perform r = .error (.duplicateProperty c.mapping.name property) r) ∨
    (r.mapping? c.entity = none ∧ c.properties.Nodup ∧
      c.perform r = .ok () ⟨r.mappings ++ [(c.entity.key, c.mapping)]⟩) := by
  rw [perform_eq, answer_eq, insert]
  by_cases known : (r.mapping? c.entity).isSome
  · exact Or.inl ⟨known, by rw [if_pos known]⟩
  · have unknown : r.mapping? c.entity = none := by simpa using known
    rw [if_neg known]
    cases twice : c.mapping.repeatedProperty? with
    | some property =>
        exact Or.inr (Or.inl ⟨unknown, property, Mapping.repeatedProperty?_eq_some_iff.mp twice, rfl⟩)
    | none => exact Or.inr (Or.inr ⟨unknown, Mapping.repeatedProperty?_eq_none_iff.mp twice, rfl⟩)

/-! ## What a run records -/

/-- Whether a registry holds just the mappings of some calls, in their order, and each for an entity of its
own. -/
structure Records (r : Registry) (taken : List Call) : Prop where
  mappings : r.mappings = taken.map fun c => (c.entity.key, c.mapping)
  entities : (taken.map (·.entity.key)).Nodup

namespace Records

variable {taken : List Call}

theorem empty : Registry.empty.Records [] := ⟨rfl, List.nodup_nil⟩

/-- What is found for an entity is what was entered for it. -/
theorem mapping?_eq_some_iff (h : r.Records taken) {entity : Entity} {mapping : Mapping} :
    r.mapping? entity = some mapping ↔ ∃ c ∈ taken, c.entity.key = entity.key ∧ c.mapping = mapping := by
  have entered {m : Mapping} (found : r.mapping? entity = some m) :
      ∃ c ∈ taken, c.entity.key = entity.key ∧ c.mapping = m := by
    obtain ⟨before, rest, split, -⟩ := List.lookup_eq_some_iff.mp found
    have mem : (entity.key, m) ∈ r.mappings := split ▸ List.mem_append_right before List.mem_cons_self
    obtain ⟨c, hc, same⟩ := List.mem_map.mp (h.mappings ▸ mem)
    obtain ⟨key, rfl⟩ := Prod.mk.inj same
    exact ⟨c, hc, key, rfl⟩
  constructor
  · exact entered
  · rintro ⟨c, hc, key, rfl⟩
    have known : (r.mapping? entity).isSome := by
      refine List.lookup_isSome_iff.mpr ⟨(c.entity.key, c.mapping), ?_, by simp [key]⟩
      exact h.mappings ▸ List.mem_map_of_mem hc
    obtain ⟨m, found⟩ := Option.isSome_iff_exists.mp known
    obtain ⟨c', hc', key', rfl⟩ := entered found
    -- No other call was admitted for the entity.
    obtain rfl := List.inj_on_of_nodup_map h.entities hc' hc (key'.trans key.symm)
    exact found

theorem isSome_mapping?_iff (h : r.Records taken) {entity : Entity} :
    (r.mapping? entity).isSome ↔ ∃ c ∈ taken, c.entity.key = entity.key := by
  rw [Option.isSome_iff_exists]
  simp only [h.mapping?_eq_some_iff]
  exact ⟨fun ⟨_, c, hc, key, _⟩ => ⟨c, hc, key⟩, fun ⟨c, hc, key⟩ => ⟨_, c, hc, key, rfl⟩⟩

/-- An admitted call is recorded behind the others. -/
theorem perform (h : r.Records taken) {u : Unit} (made : c.perform r = .ok u r') :
    r'.Records (taken ++ [c]) := by
  rcases perform_cases c r with ⟨-, refused⟩ | ⟨-, _, -, refused⟩ | ⟨unknown, -, done⟩
  · exact absurd (refused.symm.trans made) nofun
  · exact absurd (refused.symm.trans made) nofun
  · obtain ⟨-, rfl⟩ := EStateM.Result.ok.inj (done.symm.trans made)
    constructor
    case mappings => rw [h.mappings, List.map_append]; rfl
    case entities =>
      have new : c.entity.key ∉ taken.map (·.entity.key) := fun mem => by
        obtain ⟨c', hc', key⟩ := List.mem_map.mp mem
        have known := h.isSome_mapping?_iff.mpr ⟨c', hc', key⟩
        simp [unknown] at known
      rw [List.map_append]
      refine List.nodup_append.mpr ⟨h.entities, List.nodup_singleton _, fun a ha b hb same => ?_⟩
      obtain rfl := same.trans (List.mem_singleton.mp hb)
      exact new ha

end Records

/-- A registry that refuses a call stays as it was. -/
theorem refused_eq {e : MappingError} (refused : c.perform r = .error e r') : r' = r := by
  rcases perform_cases c r with ⟨-, h⟩ | ⟨-, _, -, h⟩ | ⟨-, -, h⟩
  · exact (EStateM.Result.error.inj (h.symm.trans refused)).2.symm
  · exact (EStateM.Result.error.inj (h.symm.trans refused)).2.symm
  · exact absurd (h.symm.trans refused) nofun

/-- A run goes on from the registry that the first call leaves, which is the one that the call made or the
one before it. -/
theorem after_run (run : r.run (c :: calls) = some r') :
    ∃ s, r.after c = some s ∧ s.run calls = some r' :=
  Option.bind_eq_some_iff.mp run

theorem after_eq_offer (kept : r.after c = some r') : r' = r.offer (c.entity, c.mapping) := by
  rw [offer, ← answer_eq]
  rw [after, perform_eq] at kept
  cases made : r.answer c with
  | ok s => simpa [made, Except.toOption] using kept.symm
  | error e =>
      simp only [made] at kept
      split at kept
      · exact (Option.some.inj kept).symm
      · exact absurd kept nofun

theorem Reachable.run (h : r.Reachable) (run : r.run calls = some r') : r'.Reachable := by
  induction calls generalizing r with
  | nil => exact Option.some.inj run ▸ h
  | cons c calls ih =>
      obtain ⟨s, first, rest⟩ := after_run run
      obtain ⟨offers, rfl⟩ := h
      refine ih ⟨offers ++ [(c.entity, c.mapping)], ?_⟩ rest
      rw [List.foldl_append, after_eq_offer first]
      rfl

/-- **What a registry holds after a run is what it held before, and what was admitted.** -/
theorem Records.run {taken : List Call} (h : r.Records taken) (run : r.run calls = some r') :
    r'.Records (taken ++ r.admitted calls) := by
  induction calls generalizing r taken with
  | nil =>
      obtain rfl := Option.some.inj run
      simpa [admitted] using h
  | cons c calls ih =>
      obtain ⟨s, first, rest⟩ := after_run run
      cases made : c.perform r with
      | ok u next =>
          obtain rfl : next = s := by simpa [after, made] using first
          simpa [admitted, made] using ih (h.perform made) rest
      | error e next =>
          obtain rfl := refused_eq made
          obtain rfl : next = s := by
            simp only [after, made] at first
            split at first
            · exact Option.some.inj first
            · exact absurd first nofun
          simpa [admitted, made] using ih h rest

/-! ## What is known after a run -/

/-- What is known of a registry of which some calls were admitted. -/
structure Admission (r : Registry) (taken : List Call) : Prop where
  /-- No property of a registered entity comes twice. -/
  distinct : ∀ entity columns, r.columns? entity = some columns → (columns.map (·.property)).Nodup
  /-- Columns are listed just for the entities that were registered, in the order of their declaration. -/
  listed : ∀ entity columns, r.columns? entity = some columns ↔
    ∃ c ∈ taken, c.entity.key = entity.key ∧ c.mapping.columns = columns
  /-- What is found for a property is the only column of it among those that are listed. -/
  found : ∀ entity property column, r.column? ⟨entity, property⟩ = some column ↔
    ∃ columns, r.columns? entity = some columns ∧ column ∈ columns ∧ column.property = property ∧
      ∀ other ∈ columns, other.property = property → other = column
  /-- Whatever is called later, a mapping stays as it is. -/
  stays : ∀ later r', r.run later = some r' → ∀ entity mapping,
    r.mapping? entity = some mapping → r'.mapping? entity = some mapping
  /-- A call that is refused leaves the registry as it was. -/
  refused : ∀ c e r', Call.perform c r = .error e r' → r' = r
  /-- A call is refused for its entity just when the entity is registered, whatever it maps. -/
  entityTwice : ∀ c name, (∃ r', Call.perform c r = .error (.duplicateEntity name) r') ↔
    (∃ c' ∈ taken, c'.entity.key = c.entity.key) ∧ name = c.entity.name
  /-- For any other entity it is refused just when a property comes twice, and the first one is named. -/
  propertyTwice : ∀ c name property,
    (∃ r', Call.perform c r = .error (.duplicateProperty name property) r') ↔
      (¬ ∃ c' ∈ taken, c'.entity.key = c.entity.key) ∧ name = c.mapping.name ∧
        IsFirstRepeated c.properties property
  /-- All other calls are admitted. -/
  admits : ∀ c, (∃ r', Call.perform c r = .ok () r') ↔
    (¬ ∃ c' ∈ taken, c'.entity.key = c.entity.key) ∧ c.properties.Nodup

theorem Records.mapping?_run {taken : List Call} (h : r.Records taken) (run : r.run calls = some r')
    {entity : Entity} {mapping : Mapping} (known : r.mapping? entity = some mapping) :
    r'.mapping? entity = some mapping := by
  obtain ⟨c, hc, entered⟩ := h.mapping?_eq_some_iff.mp known
  exact (h.run run).mapping?_eq_some_iff.mpr ⟨c, List.mem_append_left _ hc, entered⟩

theorem Records.columns?_eq_some_iff {taken : List Call} (h : r.Records taken) {entity : Entity}
    {columns : List Column} : r.columns? entity = some columns ↔
      ∃ c ∈ taken, c.entity.key = entity.key ∧ c.mapping.columns = columns := by
  rw [columns?, Option.map_eq_some_iff]
  simp only [h.mapping?_eq_some_iff]
  constructor
  · rintro ⟨_, ⟨c, hc, key, rfl⟩, rfl⟩
    exact ⟨c, hc, key, rfl⟩
  · rintro ⟨c, hc, key, rfl⟩
    exact ⟨c.mapping, ⟨c, hc, key, rfl⟩, rfl⟩

theorem Reachable.column?_eq_some_iff (h : r.Reachable) {entity : Entity} {property : String}
    {column : Column} : r.column? ⟨entity, property⟩ = some column ↔
      ∃ columns, r.columns? entity = some columns ∧ column ∈ columns ∧ column.property = property ∧
        ∀ other ∈ columns, other.property = property → other = column := by
  constructor
  · intro found
    obtain ⟨mapping, known, first⟩ := Option.bind_eq_some_iff.mp found
    have listed : r.columns? entity = some mapping.columns := by rw [columns?, known]; rfl
    have mem := List.mem_of_find?_eq_some first
    have same : column.property = property := by simpa using List.find?_some first
    refine ⟨mapping.columns, listed, mem, same, fun other there its => ?_⟩
    exact List.inj_on_of_nodup_map (h.proper.nodup listed) there mem (its.trans same.symm)
  · rintro ⟨columns, listed, mem, rfl, -⟩
    exact h.column?_of_mem listed mem

/-- **Along every run, failing calls included:**

* the properties of a registered entity are all different, and both ways to look a column up agree,
* a registry lists columns just for the entities of the calls that it has admitted, and what it has
  admitted never changes,
* it refuses a call for an entity that is registered, and otherwise one that maps a property twice and then
  names the first such property, and a refusal leaves it as it was. -/
theorem admission_run (run : empty.run calls = some r) : r.Admission (empty.admitted calls) := by
  have records : r.Records (empty.admitted calls) := Records.empty.run run
  have reachable : r.Reachable := Reachable.run ⟨[], rfl⟩ run
  have unknown_iff (c : Call) : r.mapping? c.entity = none ↔
      ¬ ∃ c' ∈ empty.admitted calls, c'.entity.key = c.entity.key := by
    rw [← records.isSome_mapping?_iff, Option.not_isSome_iff_eq_none]
  constructor
  case distinct => exact fun entity columns listed => reachable.proper.nodup listed
  case listed => exact fun entity columns => records.columns?_eq_some_iff
  case found => exact fun entity property column => reachable.column?_eq_some_iff
  case stays => exact fun later r' more entity mapping known => records.mapping?_run more known
  case refused => exact fun c e r' refused => refused_eq refused
  case entityTwice =>
    intro c name
    rw [← records.isSome_mapping?_iff]
    rcases perform_cases c r with ⟨known, made⟩ | ⟨unknown, _, -, made⟩ | ⟨unknown, -, made⟩
    · simp [made, known, eq_comm]
    · simp [made, unknown]
    · simp [made, unknown]
  case propertyTwice =>
    intro c name property
    rw [← unknown_iff]
    rcases perform_cases c r with ⟨known, made⟩ | ⟨unknown, first, twice, made⟩ | ⟨unknown, nodup, made⟩
    · have taken : r.mapping? c.entity ≠ none := Option.isSome_iff_ne_none.mp known
      simp [made, taken]
    · have same : IsFirstRepeated c.properties property ↔ first = property :=
        ⟨twice.unique, fun h => h ▸ twice⟩
      simp [made, unknown, same, eq_comm]
    · have none : ¬ IsFirstRepeated c.properties property := fun h => h.not_nodup nodup
      simp [made, none]
  case admits =>
    intro c
    rw [← unknown_iff]
    rcases perform_cases c r with ⟨known, made⟩ | ⟨unknown, _, twice, made⟩ | ⟨unknown, nodup, made⟩
    · have taken : r.mapping? c.entity ≠ none := Option.isSome_iff_ne_none.mp known
      simp [made, taken]
    · simp [made, twice.not_nodup]
    · simp [made, unknown, nodup]

/-- An account and its holder, of which the account comes up again and the holder maps a property twice
before it is registered. -/
def opening : List Call :=
  let account : Entity := ⟨"account", "Account", "accounts"⟩
  let holder : Entity := ⟨"holder", "Holder", "holders"⟩
  let id : Column := ⟨"id", "id", .long⟩
  [.register account [id, ⟨"balance", "amount", .decimal⟩],
    .insert account ⟨"Account", "archive", []⟩,
    .insert holder ⟨"Owner", "owners", [id, ⟨"name", "first", .string⟩, ⟨"name", "last", .string⟩, id]⟩,
    .extend holder [id, ⟨"name", "full_name", .string⟩]]

/-- The two refusals have left nothing behind: the first mapping of the account stays, and the holder is
still free for the last call. -/
theorem admission_run_opening : ∃ r, empty.run opening = some r ∧
    (empty.admitted opening).map (·.entity.key) = ["account", "holder"] ∧
    r.column? ⟨⟨"account", "Account", "accounts"⟩, "balance"⟩ = some ⟨"balance", "amount", .decimal⟩ ∧
    (∃ r', (Call.extend ⟨"holder", "Other", ""⟩ []).perform r = .error (.duplicateEntity "Other") r') ∧
    ∃ r', (Call.insert ⟨"bank", "Bank", "banks"⟩ ⟨"B", "b", [⟨"x", "x", .int⟩, ⟨"y", "y", .int⟩,
      ⟨"y", "z", .int⟩, ⟨"x", "w", .int⟩]⟩).perform r = .error (.duplicateProperty "B" "y") r' := by
  obtain ⟨r, run⟩ : ∃ r, empty.run opening = some r := ⟨_, rfl⟩
  have known := admission_run run
  have taken : (empty.admitted opening).map (·.entity.key) = ["account", "holder"] := by decide
  have registered (entity : Entity) : (∃ c ∈ empty.admitted opening, c.entity.key = entity.key) ↔
      entity.key ∈ ["account", "holder"] := by
    rw [← taken, List.mem_map]
  refine ⟨r, run, taken, ?_, ?_, ?_⟩
  · refine (known.found _ _ _).mpr ⟨_, (known.listed _ _).mpr ⟨_, List.mem_cons_self, rfl, rfl⟩, ?_⟩
    decide
  · refine (known.entityTwice _ _).mpr ⟨(registered _).mpr ?_, rfl⟩
    decide
  · refine (known.propertyTwice _ _ _).mpr ⟨fun h => absurd ((registered _).mp h) ?_, rfl, ?_⟩
    · decide
    · exact ⟨["x", "y"], ["x"], rfl, by decide, by decide⟩

end Registry

end QueryForest
