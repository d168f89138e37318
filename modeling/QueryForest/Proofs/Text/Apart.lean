import Mathlib.Tactic.Common

set_option autoImplicit false

/-!
# Texts that part

Two texts part when they have different characters behind a common beginning. Unlike texts that are merely
different, texts that part stay different whatever is put around them (`Apart.surround`), and so do lists of
texts that have texts which part at their first difference (`ListApart.intercalate`).
-/

namespace QueryForest.Text

/-- Two texts with different characters behind a common beginning. -/
def Apart (s t : String) : Prop :=
  ∃ (front : List Char) (c d : Char) (cs ds : List Char),
    s.toList = front ++ c :: cs ∧ t.toList = front ++ d :: ds ∧ c ≠ d

theorem Apart.ne {s t : String} (apart : Apart s t) : s ≠ t := by
  rintro rfl
  obtain ⟨front, c, d, cs, ds, hs, ht, differ⟩ := apart
  have same := List.append_cancel_left (hs.symm.trans ht)
  exact differ (List.cons.inj same).1

/-- The same text in front and any texts behind do not bring together what parts. -/
theorem Apart.surround {s t : String} (apart : Apart s t) (before after after' : String) :
    Apart (before ++ s ++ after) (before ++ t ++ after') := by
  obtain ⟨front, c, d, cs, ds, hs, ht, differ⟩ := apart
  refine ⟨before.toList ++ front, c, d, cs ++ after.toList, ds ++ after'.toList, ?_, ?_, differ⟩
  · simp [hs]
  · simp [ht]

theorem Apart.append_left {s t : String} (apart : Apart s t) (before : String) :
    Apart (before ++ s) (before ++ t) := by
  simpa using apart.surround before "" ""

theorem Apart.append_right {s t : String} (apart : Apart s t) (after after' : String) :
    Apart (s ++ after) (t ++ after') := by
  simpa using apart.surround "" after after'

/-- Two lists of texts that have texts which part behind a common beginning. -/
inductive ListApart : List String → List String → Prop
  | head {s t : String} (apart : Apart s t) (ss ts : List String) : ListApart (s :: ss) (t :: ts)
  | tail (s : String) {ss ts : List String} (apart : ListApart ss ts) : ListApart (s :: ss) (s :: ts)

/-- **Lists that part are parting texts**, with any separator. -/
theorem ListApart.intercalate {ss ts : List String} (separator : String) (apart : ListApart ss ts) :
    Apart (String.intercalate separator ss) (String.intercalate separator ts) := by
  induction apart with
  | @head s t apart ss ts =>
      rw [← @String.append_empty s, ← @String.append_empty t, String.intercalate_cons_append,
        String.intercalate_cons_append]
      exact apart.append_right _ _
  | @tail s ss ts apart ih =>
      cases apart with
      | head =>
          rw [String.intercalate_cons_cons, String.intercalate_cons_cons]
          exact ih.append_left (s ++ separator)
      | tail =>
          rw [String.intercalate_cons_cons, String.intercalate_cons_cons]
          exact ih.append_left (s ++ separator)

end QueryForest.Text
