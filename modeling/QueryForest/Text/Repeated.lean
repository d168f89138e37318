set_option autoImplicit false

/-!
# Repeated names

Finding the first name of a list that has come up before.
-/

namespace QueryForest.Text

/-- The first name that is among those already seen or comes after an equal one. -/
def firstRepeated? (seen : List String) : List String → Option String
  | [] => none
  | s :: rest => if s ∈ seen then some s else firstRepeated? (s :: seen) rest

/-- Nothing is repeated exactly when the names differ from each other and from those already seen.
-/
theorem firstRepeated?_eq_none_iff {seen names : List String} :
    firstRepeated? seen names = none ↔ names.Nodup ∧ ∀ s ∈ names, s ∉ seen := by
  induction names generalizing seen with
  | nil => simp [firstRepeated?]
  | cons s rest ih =>
    by_cases h : s ∈ seen
    · simp [firstRepeated?, h]
    · simp only [firstRepeated?, h, if_false, ih, List.nodup_cons, List.mem_cons, not_or]
      constructor
      · rintro ⟨nodup, fresh⟩
        refine ⟨⟨fun hs => (fresh s hs).1 rfl, nodup⟩, ?_⟩
        rintro t (rfl | ht)
        · exact h
        · exact (fresh t ht).2
      · rintro ⟨⟨hs, nodup⟩, fresh⟩
        exact ⟨nodup, fun t ht => ⟨fun e => hs (e ▸ ht), fresh t (Or.inr ht)⟩⟩

end QueryForest.Text
