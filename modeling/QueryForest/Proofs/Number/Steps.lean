import QueryForest.Number.Binary64

set_option autoImplicit false

/-!
# Numbers by sign and step

A number is known by its sign and its step (`eq_of_steps`). Different numbers at the same place on the line of
all steps are the two zeros (`eq_or_zeros`), which says what numeric equality comes to (`equals_iff`).
-/

namespace QueryForest.Binary64

theorem infinitySteps_lt : infinitySteps < signBit := by decide

/-- The bits of a number are its sign and its step. -/
theorem toNat_bits (x : Binary64) :
    x.bits.toNat = (if x.isNegative then signBit else 0) + x.steps := by
  have range : x.bits.toNat < 2 ^ 64 := x.bits.toNat_lt
  have half : signBit = 2 ^ 63 := rfl
  unfold isNegative steps
  rw [half]
  by_cases negative : 2 ^ 63 ≤ x.bits.toNat
  · simp only [negative, decide_true, if_true]
    omega
  · simp only [negative, decide_false, Bool.false_eq_true, if_false]
    omega

theorem eq_of_steps {x y : Binary64} (sign : x.isNegative = y.isNegative) (same : x.steps = y.steps) :
    x = y := by
  have bits : x.bits.toNat = y.bits.toNat := by rw [toNat_bits, toNat_bits, sign, same]
  cases x
  cases y
  exact congrArg Binary64.mk (UInt64.toNat.inj bits)

theorem toNat_ofSteps (negative : Bool) {steps : Nat} (range : steps < signBit) :
    (ofSteps negative steps).bits.toNat = (if negative then signBit else 0) + steps := by
  have half : signBit = 2 ^ 63 := rfl
  unfold ofSteps
  rw [UInt64.toNat_ofNat']
  cases negative with
  | true =>
      simp only [if_true]
      omega
  | false =>
      simp only [Bool.false_eq_true, if_false]
      omega

@[simp] theorem steps_ofSteps (negative : Bool) {steps : Nat} (range : steps < signBit) :
    (ofSteps negative steps).steps = steps := by
  rw [Binary64.steps, toNat_ofSteps negative range]
  cases negative <;> simp [Nat.mod_eq_of_lt range]

@[simp] theorem isNegative_ofSteps (negative : Bool) {steps : Nat} (range : steps < signBit) :
    (ofSteps negative steps).isNegative = negative := by
  rw [isNegative, toNat_ofSteps negative range]
  cases negative with
  | true => simp
  | false => simpa using range

theorem place_ofSteps (negative : Bool) {steps : Nat} (range : steps < signBit) :
    (ofSteps negative steps).place = if negative then -(steps : Int) else steps := by
  rw [place, isNegative_ofSteps negative range, steps_ofSteps negative range]

/-! ## Numeric equality -/

theorem eq_zero {x : Binary64} (none : x.steps = 0) : x = zero x.isNegative := by
  have range : 0 < signBit := Nat.two_pow_pos 63
  refine eq_of_steps ?_ ?_
  · rw [zero, isNegative_ofSteps _ range]
  · rw [zero, steps_ofSteps _ range, none]

/-- Different numbers of the same place are the two zeros. -/
theorem eq_or_zeros {x y : Binary64} (same : x.place = y.place) :
    x = y ∨ ∃ negative, x = zero negative ∧ y = zero (!negative) := by
  by_cases sign : x.isNegative = y.isNegative
  · refine Or.inl (eq_of_steps sign ?_)
    unfold place at same
    rw [sign] at same
    split at same <;> omega
  · have none : x.steps = 0 ∧ y.steps = 0 := by
      unfold place at same
      cases hx : x.isNegative <;> cases hy : y.isNegative <;> simp [hx, hy] at same sign <;> omega
    refine Or.inr ⟨x.isNegative, eq_zero none.1, ?_⟩
    rw [Bool.not_eq.mpr sign]
    exact eq_zero none.2

/-- The same number, with one zero in place of both zeros. -/
def oneZero (x : Binary64) : Binary64 := if x.steps = 0 then zero false else x

theorem oneZero_zero (negative : Bool) : (zero negative).oneZero = zero false := by
  cases negative <;> decide

@[simp] theorem place_oneZero (x : Binary64) : x.oneZero.place = x.place := by
  unfold oneZero
  split
  · next none =>
    have origin : (zero false).place = 0 := by decide
    rw [origin, place, none]
    split <;> rfl
  · rfl

theorem place_eq_iff {x y : Binary64} : x.place = y.place ↔ x.oneZero = y.oneZero := by
  constructor
  · intro same
    rcases eq_or_zeros same with rfl | ⟨negative, rfl, rfl⟩
    · rfl
    · rw [oneZero_zero, oneZero_zero]
  · intro same
    rw [← place_oneZero x, same, place_oneZero]

theorem compare?_eq_some_iff {x y : Binary64} {o : Ordering} :
    x.compare? y = some o ↔ x.isNaN = false ∧ y.isNaN = false ∧ compare x.place y.place = o := by
  rw [compare?]
  cases x.isNaN <;> cases y.isNaN <;> simp

theorem equals_iff {x y : Binary64} :
    x.equals y = true ↔ x.isNaN = false ∧ y.isNaN = false ∧ x.place = y.place := by
  rw [equals, beq_iff_eq, compare?_eq_some_iff, Int.compare_eq_eq]

-- The two zeros are equal, and what is no number does not equal itself.
example : (zero true).equals (zero false) = true ∧ nan.equals nan = false := by decide

end QueryForest.Binary64
