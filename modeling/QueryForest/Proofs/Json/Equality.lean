import QueryForest.Json.Printer
import QueryForest.Proofs.Number.Steps
import QueryForest.Proofs.Text.Apart

set_option autoImplicit false

/-!
# Equality of JSON values

Values are equal when they hold no `NaN` and are the same up to the signs of their zeros (`Json.equals_iff`).
Equal values that are not the same have texts that part, at the first zero of another sign
(`Json.text_apart`).
-/

namespace QueryForest

namespace JsonNumber

/-- Whether a number is no number. -/
def isNaN : JsonNumber → Bool
  | float x => x.isNaN
  | _ => false

/-- The same number, with one zero in place of both floating point zeros. -/
def oneZero : JsonNumber → JsonNumber
  | float x => float x.oneZero
  | n => n

theorem equals_iff {m n : JsonNumber} :
    m.equals n = true ↔ m.isNaN = false ∧ n.isNaN = false ∧ m.oneZero = n.oneZero := by
  cases m with
  | unsigned => cases n <;> simp [equals, isNaN, oneZero]
  | negative => cases n <;> simp [equals, isNaN, oneZero]
  | float =>
      cases n with
      | unsigned | negative => simp [equals, oneZero]
      | float => simp [equals, isNaN, oneZero, Binary64.equals_iff, Binary64.place_eq_iff]

end JsonNumber

namespace Json

mutual

/-- Whether a value holds a `NaN` at any depth. -/
def holdsNaN : Json → Bool
  | number n => n.isNaN
  | array items => itemsHoldNaN items
  | object members => membersHoldNaN members
  | _ => false

def itemsHoldNaN : List Json → Bool
  | [] => false
  | j :: js => j.holdsNaN || itemsHoldNaN js

def membersHoldNaN : List (String × Json) → Bool
  | [] => false
  | (_, j) :: ms => j.holdsNaN || membersHoldNaN ms

end

mutual

/-- The same value, with one zero in place of both floating point zeros at every depth. -/
def oneZero : Json → Json
  | number n => number n.oneZero
  | array items => array (itemsOneZero items)
  | object members => object (membersOneZero members)
  | j => j

def itemsOneZero : List Json → List Json
  | [] => []
  | j :: js => j.oneZero :: itemsOneZero js

def membersOneZero : List (String × Json) → List (String × Json)
  | [] => []
  | (k, j) :: ms => (k, j.oneZero) :: membersOneZero ms

end

mutual

/-- **Values are equal when they hold no `NaN` and are the same up to the signs of their zeros.** -/
theorem equals_iff (a b : Json) :
    a.equals b = true ↔ a.holdsNaN = false ∧ b.holdsNaN = false ∧ a.oneZero = b.oneZero := by
  cases a with
  | null => cases b <;> simp [equals, holdsNaN, oneZero]
  | bool => cases b <;> simp [equals, holdsNaN, oneZero]
  | string => cases b <;> simp [equals, holdsNaN, oneZero]
  | number => cases b <;> simp [equals, holdsNaN, oneZero, JsonNumber.equals_iff]
  | array items =>
      cases b with
      | array items' => simpa [equals, holdsNaN, oneZero] using equalItems_iff items items'
      | _ => simp [equals, oneZero]
  | object members =>
      cases b with
      | object members' => simpa [equals, holdsNaN, oneZero] using equalMembers_iff members members'
      | _ => simp [equals, oneZero]

theorem equalItems_iff (as bs : List Json) :
    equalItems as bs = true ↔
      itemsHoldNaN as = false ∧ itemsHoldNaN bs = false ∧ itemsOneZero as = itemsOneZero bs := by
  cases as with
  | nil => cases bs <;> simp [equalItems, itemsHoldNaN, itemsOneZero]
  | cons a as =>
      cases bs with
      | nil => simp [equalItems, itemsOneZero]
      | cons b bs =>
          simp only [equalItems, itemsHoldNaN, itemsOneZero, Bool.and_eq_true, equals_iff a b,
            equalItems_iff as bs, Bool.or_eq_false_iff, List.cons.injEq]
          tauto

theorem equalMembers_iff (ms ns : List (String × Json)) :
    equalMembers ms ns = true ↔
      membersHoldNaN ms = false ∧ membersHoldNaN ns = false ∧ membersOneZero ms = membersOneZero ns := by
  cases ms with
  | nil => cases ns <;> simp [equalMembers, membersHoldNaN, membersOneZero]
  | cons m ms =>
      cases ns with
      | nil => simp [equalMembers, membersOneZero]
      | cons n ns =>
          obtain ⟨k, a⟩ := m
          obtain ⟨l, b⟩ := n
          simp only [equalMembers, membersHoldNaN, membersOneZero, Bool.and_eq_true, equals_iff a b,
            equalMembers_iff ms ns, Bool.or_eq_false_iff, List.cons.injEq, Prod.mk.injEq, beq_iff_eq]
          tauto

end

/-! ## Texts of equal values -/

theorem floatText_zero :
    floatText (Binary64.zero false) = "0.0" ∧ floatText (Binary64.zero true) = "-0.0" := by
  decide +kernel

/-- The two zeros have different texts. -/
theorem zeroTexts_apart (negative : Bool) :
    Text.Apart (floatText (Binary64.zero negative)) (floatText (Binary64.zero !negative)) := by
  cases negative with
  | false =>
      rw [Bool.not_false, floatText_zero.1, floatText_zero.2]
      exact ⟨[], '0', '-', ['.', '0'], ['0', '.', '0'], by decide, by decide, by decide⟩
  | true =>
      rw [Bool.not_true, floatText_zero.1, floatText_zero.2]
      exact ⟨[], '-', '0', ['0', '.', '0'], ['.', '0'], by decide, by decide, by decide⟩

theorem numberText_apart {m n : JsonNumber} (same : m.equals n = true) :
    m = n ∨ Text.Apart (numberText m) (numberText n) := by
  cases m with
  | unsigned => cases n <;> simp_all [JsonNumber.equals]
  | negative => cases n <;> simp_all [JsonNumber.equals]
  | float x =>
      cases n with
      | unsigned | negative => contradiction
      | float y =>
          rcases Binary64.eq_or_zeros (Binary64.equals_iff.mp same).2.2 with rfl | ⟨negative, rfl, rfl⟩
          · exact Or.inl rfl
          · exact Or.inr (zeroTexts_apart negative)

-- By recursion over both values at once. In an array or an object the texts part where those of the first
-- items do that are not the same, because the texts of the items before are.
mutual

/-- **Equal values are the same, or their texts part.** -/
theorem text_apart (a b : Json) (same : a.equals b = true) : a = b ∨ Text.Apart a.text b.text := by
  cases a with
  | null => cases b <;> simp_all [equals]
  | bool => cases b <;> simp_all [equals]
  | string => cases b <;> simp_all [equals]
  | number n =>
      cases b with
      | number m => exact (numberText_apart same).imp_left (congrArg number)
      | _ => contradiction
  | array items =>
      cases b with
      | array items' =>
          refine (itemTexts_apart items items' same).imp (congrArg array) fun apart => ?_
          exact (apart.intercalate ",").surround "[" "]" "]"
      | _ => contradiction
  | object members =>
      cases b with
      | object members' =>
          refine (memberTexts_apart members members' same).imp (congrArg object) fun apart => ?_
          exact (apart.intercalate ",").surround "\x7b" "\x7d" "\x7d"
      | _ => contradiction

theorem itemTexts_apart (as bs : List Json) (same : equalItems as bs = true) :
    as = bs ∨ Text.ListApart (itemTexts as) (itemTexts bs) := by
  cases as with
  | nil => cases bs <;> simp_all [equalItems]
  | cons a as =>
      cases bs with
      | nil => contradiction
      | cons b bs =>
          obtain ⟨first, rest⟩ := Bool.and_eq_true_iff.mp same
          rcases text_apart a b first with rfl | apart
          · exact (itemTexts_apart as bs rest).imp (congrArg (a :: ·)) (.tail a.text)
          · exact Or.inr (.head apart _ _)

theorem memberTexts_apart (ms ns : List (String × Json)) (same : equalMembers ms ns = true) :
    ms = ns ∨ Text.ListApart ((memberTexts ms).map fun (k, v) => quote k ++ ":" ++ v)
      ((memberTexts ns).map fun (k, v) => quote k ++ ":" ++ v) := by
  cases ms with
  | nil => cases ns <;> simp_all [equalMembers]
  | cons m ms =>
      cases ns with
      | nil => contradiction
      | cons n ns =>
          obtain ⟨k, a⟩ := m
          obtain ⟨l, b⟩ := n
          simp only [equalMembers, Bool.and_eq_true, beq_iff_eq] at same
          obtain ⟨⟨rfl, first⟩, rest⟩ := same
          rcases text_apart a b first with rfl | apart
          · exact (memberTexts_apart ms ns rest).imp (congrArg ((k, a) :: ·)) (.tail _)
          · exact Or.inr (.head (apart.append_left (quote k ++ ":")) _ _)

end

end Json

end QueryForest
