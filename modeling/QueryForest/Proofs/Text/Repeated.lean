import Mathlib.Data.List.Nodup
import QueryForest.Text.Repeated

set_option autoImplicit false

/-!
# The first name that comes twice

What the search for a repeated name finds: the first name of the list that has come up before, behind names
that are all different (`firstRepeated?_nil_eq_some_iff`).
-/

namespace QueryForest.Text

/-- Whether a name is the first one of a list that has come up before. -/
def IsFirstRepeated (names : List String) (name : String) : Prop :=
  ∃ before rest, names = before ++ name :: rest ∧ before.Nodup ∧ name ∈ before

/-- **The search stops at the first name that has come up before**, in the list or among those already
seen. -/
theorem firstRepeated?_eq_some_iff {seen names : List String} {name : String} :
    firstRepeated? seen names = some name ↔ ∃ before rest, names = before ++ name :: rest ∧
      before.Nodup ∧ (∀ s ∈ before, s ∉ seen) ∧ (name ∈ before ∨ name ∈ seen) := by
  induction names generalizing seen with
  | nil => simp [firstRepeated?]
  | cons first names ih =>
      by_cases known : first ∈ seen
      · rw [firstRepeated?, if_pos known, Option.some.injEq]
        constructor
        · rintro rfl
          exact ⟨[], names, rfl, List.nodup_nil, fun s mem => absurd mem List.not_mem_nil, Or.inr known⟩
        · rintro ⟨before, rest, split, -, unseen, -⟩
          cases before with
          | nil => exact (List.cons.inj split).1
          | cons s before =>
              obtain rfl := (List.cons.inj split).1
              exact absurd known (unseen first List.mem_cons_self)
      · rw [firstRepeated?, if_neg known, ih]
        constructor
        · rintro ⟨before, rest, rfl, nodup, unseen, twice⟩
          have new : first ∉ before := fun mem => unseen first mem List.mem_cons_self
          refine ⟨first :: before, rest, rfl, List.nodup_cons.mpr ⟨new, nodup⟩, ?_, ?_⟩
          · intro s mem
            rcases List.mem_cons.mp mem with rfl | mem
            · exact known
            · exact fun old => unseen s mem (List.mem_cons_of_mem _ old)
          · simpa [or_assoc, or_comm, or_left_comm] using twice
        · rintro ⟨before, rest, split, nodup, unseen, twice⟩
          cases before with
          | nil =>
              obtain rfl := (List.cons.inj split).1
              exact absurd (twice.resolve_left List.not_mem_nil) known
          | cons s before =>
              obtain ⟨rfl, rfl⟩ := List.cons.inj split
              obtain ⟨new, nodup⟩ := List.nodup_cons.mp nodup
              refine ⟨before, rest, rfl, nodup, fun s mem => ?_, ?_⟩
              · rw [List.mem_cons, not_or]
                exact ⟨fun same => new (same ▸ mem), unseen s (List.mem_cons_of_mem _ mem)⟩
              · simpa [or_assoc, or_comm, or_left_comm] using twice

/-- A name that the search finds is the first one that has come up before. -/
theorem firstRepeated?_nil_eq_some_iff {names : List String} {name : String} :
    firstRepeated? [] names = some name ↔ IsFirstRepeated names name := by
  rw [firstRepeated?_eq_some_iff]
  simp [IsFirstRepeated]

namespace IsFirstRepeated

variable {names : List String} {name : String}

theorem not_nodup (h : IsFirstRepeated names name) : ¬ names.Nodup := by
  obtain ⟨before, rest, rfl, -, twice⟩ := h
  intro nodup
  exact (List.nodup_append.mp nodup).2.2 name twice name List.mem_cons_self rfl

theorem unique (h : IsFirstRepeated names name) {name' : String} (h' : IsFirstRepeated names name') :
    name = name' :=
  Option.some.inj ((firstRepeated?_nil_eq_some_iff.mpr h).symm.trans (firstRepeated?_nil_eq_some_iff.mpr h'))

end IsFirstRepeated

end QueryForest.Text
