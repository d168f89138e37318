import Mathlib.Data.List.Nodup
import QueryForest.Mapping.Registry

set_option autoImplicit false

/-!
# What registries hold

A registry begins empty and takes mappings or refuses them. It takes no mapping that has a property twice
(`Proper.offer`), so that each column that it lists for an entity is also the one that it finds for the
property of this column (`Reachable.column?_of_mem`).
-/

namespace QueryForest.Registry

variable {r r' : Registry} {entity : Entity} {mapping : Mapping}

/-- The registry after a mapping was offered for an entity. One that refuses it stays as it was. -/
def offer (r : Registry) (offered : Entity × Mapping) : Registry :=
  (r.insert offered.1 offered.2).toOption.getD r

/-- The registries that callers can make. -/
def Reachable (r : Registry) : Prop :=
  ∃ offers : List (Entity × Mapping), offers.foldl offer empty = r

/-- Whether no mapping has a property twice. -/
def Proper (r : Registry) : Prop :=
  ∀ entry ∈ r.mappings, (entry.2.columns.map (·.property)).Nodup

/-- A mapping that is taken comes behind the others, and has no property twice. -/
theorem insert_ok (h : r.insert entity mapping = .ok r') :
    (mapping.columns.map (·.property)).Nodup ∧ r' = ⟨r.mappings ++ [(entity.key, mapping)]⟩ := by
  unfold insert at h
  split at h
  · exact absurd h nofun
  · split at h
    · exact absurd h nofun
    · next unique => exact ⟨(Text.firstRepeated?_eq_none_iff.mp unique).1, (Except.ok.inj h).symm⟩

theorem Proper.offer (h : r.Proper) (offered : Entity × Mapping) : (r.offer offered).Proper := by
  unfold Registry.offer
  cases taken : r.insert offered.1 offered.2 with
  | error e => exact h
  | ok r' =>
      obtain ⟨nodup, rfl⟩ := insert_ok taken
      intro entry mem
      rcases List.mem_append.mp mem with old | new
      · exact h entry old
      · obtain rfl := List.mem_singleton.mp new
        exact nodup

/-- **No registry that callers can make has a property twice in a mapping.** -/
theorem Reachable.proper (h : r.Reachable) : r.Proper := by
  obtain ⟨offers, rfl⟩ := h
  -- By induction on the offers, behind any registry that is proper already.
  suffices ∀ r : Registry, r.Proper → (offers.foldl Registry.offer r).Proper from
    this empty fun _ mem => absurd mem List.not_mem_nil
  induction offers with
  | nil => exact fun _ h => h
  | cons offered rest ih => exact fun r h => ih (r.offer offered) (h.offer offered)

variable {columns : List Column}

theorem Proper.nodup (h : r.Proper) (known : r.columns? entity = some columns) :
    (columns.map (·.property)).Nodup := by
  obtain ⟨mapping, found, rfl⟩ := Option.map_eq_some_iff.mp known
  obtain ⟨before, after, split, -⟩ := List.lookup_eq_some_iff.mp found
  exact h _ (split ▸ List.mem_append_right before List.mem_cons_self)

/-- **The columns that are listed for an entity are found by their properties.** -/
theorem Reachable.column?_of_mem (h : r.Reachable) (known : r.columns? entity = some columns)
    {c : Column} (mem : c ∈ columns) : r.column? ⟨entity, c.property⟩ = some c := by
  have nodup := h.proper.nodup known
  obtain ⟨mapping, found, rfl⟩ := Option.map_eq_some_iff.mp known
  obtain ⟨c', first⟩ : ∃ c', mapping.columns.find? (·.property = c.property) = some c' :=
    Option.isSome_iff_exists.mp (List.find?_isSome.mpr ⟨c, mem, decide_eq_true rfl⟩)
  -- Only one column is listed for the property.
  have same : c'.property = c.property := by simpa using List.find?_some first
  obtain rfl := List.inj_on_of_nodup_map nodup (List.mem_of_find?_eq_some first) mem same
  rw [column?, found]
  exact first

end QueryForest.Registry
