import Mathlib.Algebra.Order.Field.Basic
import Mathlib.Algebra.Order.Field.Power
import Mathlib.Data.Rat.Cast.Order
import Mathlib.Tactic.Linarith
import Mathlib.Tactic.Positivity
import Mathlib.Tactic.Ring
import QueryForest.Number.Rounding
import QueryForest.Proofs.Number.Steps

set_option autoImplicit false

/-!
# Rounding respects the order

A greater ratio is never rounded to a smaller number (`roundedSteps_mono`). Where two ratios have the same
unit, their coefficients are rounded to integers in their order; and a ratio with a greater unit comes
behind every coefficient of the smaller one, because coefficients lie between `2 ^ 52` and `2 ^ 53`.

Integers keep their order when they are rounded (`place_ofInt_mono`), and up to `2 ^ 53` they stay apart
(`place_ofInt_lt`).
-/

namespace QueryForest.Binary64

/-! ## The nearest integer -/

theorem divNearest_cases (num den : Nat) :
    (divNearest num den = num / den ∧ 2 * (num % den) ≤ den) ∨
      (divNearest num den = num / den + 1 ∧ den ≤ 2 * (num % den)) := by
  unfold divNearest
  dsimp only
  split
  · exact Or.inl ⟨rfl, by omega⟩
  · split
    · exact Or.inr ⟨rfl, by omega⟩
    · rcases Nat.mod_two_eq_zero_or_one (num / den) with even | odd
      · exact Or.inl ⟨by omega, by omega⟩
      · exact Or.inr ⟨by omega, by omega⟩

/-- **A greater quotient is never rounded to a smaller integer.** -/
theorem divNearest_mono {num den num' den' : Nat} (hd : 0 < den) (hd' : 0 < den')
    (le : num * den' ≤ num' * den) : divNearest num den ≤ divNearest num' den' := by
  have split := Nat.div_add_mod num den
  have split' := Nat.div_add_mod num' den'
  have rest := Nat.mod_lt num hd
  have rest' := Nat.mod_lt num' hd'
  have whole : num / den ≤ num' / den' := by
    refine (Nat.le_div_iff_mul_le hd').mpr (Nat.le_of_mul_le_mul_right ?_ hd)
    calc num / den * den' * den = (num / den * den) * den' := by ring
      _ ≤ num * den' := Nat.mul_le_mul_right den' (Nat.div_mul_le_self num den)
      _ ≤ num' * den := le
  rcases Nat.lt_or_eq_of_le whole with less | same
  · have := divNearest_cases num den
    have := divNearest_cases num' den'
    omega
  · -- Both lie above the same integer, so their remainders are in the order of the quotients.
    have remainders : num % den * den' ≤ num' % den' * den := by
      have expand : num * den' = num' / den' * (den * den') + num % den * den' := by
        conv_lhs => rw [← split, same]
        ring
      have expand' : num' * den = num' / den' * (den * den') + num' % den' * den := by
        conv_lhs => rw [← split']
        ring
      omega
    have half (h : 2 * (num' % den') < den') : 2 * (num % den) < den := by
      refine Nat.lt_of_mul_lt_mul_right (a := den') ?_
      calc 2 * (num % den) * den' = 2 * (num % den * den') := by ring
        _ ≤ 2 * (num' % den' * den) := Nat.mul_le_mul_left 2 remainders
        _ = 2 * (num' % den') * den := by ring
        _ < den' * den := Nat.mul_lt_mul_of_pos_right h hd
        _ = den * den' := Nat.mul_comm den' den
    have tie (h : 2 * (num' % den') ≤ den') : 2 * (num % den) ≤ den := by
      refine Nat.le_of_mul_le_mul_right ?_ hd'
      calc 2 * (num % den) * den' = 2 * (num % den * den') := by ring
        _ ≤ 2 * (num' % den' * den) := Nat.mul_le_mul_left 2 remainders
        _ = 2 * (num' % den') * den := by ring
        _ ≤ den' * den := Nat.mul_le_mul_right den h
        _ = den * den' := Nat.mul_comm den' den
    unfold divNearest
    dsimp only
    rw [same]
    split <;> split <;> (try split) <;> (try split) <;> omega

theorem divNearest_one (k : Nat) : divNearest k 1 = k := by
  simp [divNearest, Nat.mod_one]

theorem le_divNearest {num den k : Nat} (hd : 0 < den) (le : k * den ≤ num) : k ≤ divNearest num den := by
  have mono := divNearest_mono Nat.one_pos hd (show k * den ≤ num * 1 by omega)
  rwa [divNearest_one] at mono

theorem divNearest_le {num den k : Nat} (hd : 0 < den) (le : num ≤ k * den) : divNearest num den ≤ k := by
  have mono := divNearest_mono hd Nat.one_pos (show num * 1 ≤ k * den by omega)
  rwa [divNearest_one] at mono

/-! ## The unit of a ratio -/

theorem two_zpow (e : ℤ) : (2 : ℚ) ^ e = 2 ^ e.toNat / 2 ^ (-e).toNat := by
  rcases Int.le_total 0 e with pos | neg
  · have none : (-e).toNat = 0 := by omega
    rw [none, pow_zero, div_one, ← zpow_natCast, Int.toNat_of_nonneg pos]
  · have none : e.toNat = 0 := by omega
    rw [none, pow_zero, one_div, ← zpow_natCast, Int.toNat_of_nonneg (by omega), zpow_neg, inv_inv]

/-- Exponents are in the order of a number between their powers. -/
theorem exponent_lt {e e' : ℤ} {q : ℚ} (low : (2 : ℚ) ^ e ≤ q) (high : q < 2 ^ e') : e < e' :=
  (zpow_lt_zpow_iff_right₀ (by norm_num)).mp (lt_of_le_of_lt low high)

theorem cast_binade : ((binade : Nat) : ℚ) = 2 ^ (52 : ℤ) := by norm_num [binade]

theorem cast_two_mul_binade : ((2 * binade : Nat) : ℚ) = 2 ^ (53 : ℤ) := by norm_num [binade]

variable {num den num' den' : Nat}

/-- Multiples of a power of two below a ratio, told by natural numbers. -/
theorem le_ratio_iff (hd : 0 < den) (k : Nat) (e : ℤ) :
    k * (den * 2 ^ e.toNat) ≤ num * 2 ^ (-e).toNat ↔ (k : ℚ) * 2 ^ e ≤ num / den := by
  have hd' : (0 : ℚ) < den := by exact_mod_cast hd
  have hp : (0 : ℚ) < 2 ^ (-e).toNat := by positivity
  rw [two_zpow, ← mul_div_assoc, div_le_div_iff₀ hp hd', ← @Nat.cast_le ℚ]
  push_cast
  constructor <;> intro h <;> linarith

theorem ratio_le_iff (hd : 0 < den) (k : Nat) (e : ℤ) :
    num * 2 ^ (-e).toNat ≤ k * (den * 2 ^ e.toNat) ↔ (num / den : ℚ) ≤ k * 2 ^ e := by
  have hd' : (0 : ℚ) < den := by exact_mod_cast hd
  have hp : (0 : ℚ) < 2 ^ (-e).toNat := by positivity
  rw [two_zpow, ← mul_div_assoc, div_le_div_iff₀ hd' hp, ← @Nat.cast_le ℚ]
  push_cast
  constructor <;> intro h <;> linarith

theorem log2_bounds {n : Nat} (hn : 0 < n) :
    (2 : ℚ) ^ (n.log2 : ℤ) ≤ n ∧ (n : ℚ) < 2 ^ (n.log2 + 1 : ℤ) := by
  constructor
  · have low := Nat.log2_self_le (Nat.pos_iff_ne_zero.mp hn)
    rw [zpow_natCast]
    exact_mod_cast low
  · have high := Nat.lt_log2_self (n := n)
    have cast : (2 : ℚ) ^ (n.log2 + 1 : ℤ) = 2 ^ (n.log2 + 1) := by
      rw [← zpow_natCast]
      push_cast
      rfl
    rw [cast]
    exact_mod_cast high

/-- A ratio lies between two powers of two, one after the other. -/
theorem log2Ratio_spec (hn : 0 < num) (hd : 0 < den) :
    (2 : ℚ) ^ log2Ratio num den ≤ num / den ∧ (num / den : ℚ) < 2 ^ (log2Ratio num den + 1) := by
  have hd' : (0 : ℚ) < den := by exact_mod_cast hd
  obtain ⟨numLow, numHigh⟩ := log2_bounds hn
  obtain ⟨denLow, denHigh⟩ := log2_bounds hd
  have two : (2 : ℚ) ≠ 0 := by norm_num
  let e : ℤ := num.log2 - den.log2
  have above : (num / den : ℚ) < 2 ^ (e + 1) := by
    rw [div_lt_iff₀ hd']
    calc (num : ℚ) < 2 ^ (num.log2 + 1 : ℤ) := numHigh
      _ = 2 ^ (e + 1) * 2 ^ (den.log2 : ℤ) := by rw [← zpow_add₀ two]; congr 1; omega
      _ ≤ 2 ^ (e + 1) * den := by gcongr
  have below : (2 : ℚ) ^ (e - 1) ≤ num / den := by
    rw [le_div_iff₀ hd']
    calc (2 : ℚ) ^ (e - 1) * den ≤ 2 ^ (e - 1) * 2 ^ (den.log2 + 1 : ℤ) := by gcongr
      _ = 2 ^ (num.log2 : ℤ) := by rw [← zpow_add₀ two]; congr 1; omega
      _ ≤ num := numLow
  have test := @le_ratio_iff num den hd 1 e
  rw [Nat.cast_one, one_mul, one_mul] at test
  by_cases reaches : den * 2 ^ e.toNat ≤ num * 2 ^ (-e).toNat
  · have found : log2Ratio num den = e := if_pos reaches
    rw [found]
    exact ⟨test.mp reaches, above⟩
  · have found : log2Ratio num den = e - 1 := if_neg reaches
    rw [found, Int.sub_add_cancel]
    exact ⟨below, lt_of_not_ge (mt test.mpr reaches)⟩

/-- The exponent of the unit in which a ratio is rounded. -/
def unitExponent (num den : Nat) : Int := max minExponent (log2Ratio num den - 52)

/-- The number of units nearest to a ratio. -/
def coefficient (num den : Nat) : Nat :=
  divNearest (num * Nat.pow 2 (-unitExponent num den).toNat) (den * Nat.pow 2 (unitExponent num den).toNat)

/-- The step that a ratio is rounded to, as long as it is that of a finite number. -/
def roundedSteps (num den : Nat) : Nat :=
  (unitExponent num den - minExponent).toNat * binade + coefficient num den

theorem ofRatio_eq (negative : Bool) (hn : 0 < num) (den : Nat) :
    ofRatio negative num den = ofSteps negative (min infinitySteps (roundedSteps num den)) :=
  if_neg (Nat.pos_iff_ne_zero.mp hn)

theorem le_coefficient (hd : 0 < den) {k : Nat}
    (le : (k : ℚ) * 2 ^ unitExponent num den ≤ num / den) : k ≤ coefficient num den :=
  le_divNearest (Nat.mul_pos hd (Nat.two_pow_pos _)) ((le_ratio_iff hd k _).mpr le)

theorem coefficient_le (hd : 0 < den) {k : Nat}
    (le : (num / den : ℚ) ≤ k * 2 ^ unitExponent num den) : coefficient num den ≤ k :=
  divNearest_le (Nat.mul_pos hd (Nat.two_pow_pos _)) ((ratio_le_iff hd k _).mpr le)

/-- Coefficients have 53 bits, or become the next power of two by rounding. -/
theorem coefficient_le_binade (hn : 0 < num) (hd : 0 < den) : coefficient num den ≤ 2 * binade := by
  refine coefficient_le hd (le_trans (log2Ratio_spec hn hd).2.le ?_)
  have unit : log2Ratio num den + 1 ≤ 53 + unitExponent num den := by
    unfold unitExponent
    omega
  rw [cast_two_mul_binade, ← zpow_add₀ (by norm_num)]
  exact zpow_le_zpow_right₀ (by norm_num) unit

/-- Coefficients have all their bits, unless the unit is the smallest one. -/
theorem binade_le_coefficient (hn : 0 < num) (hd : 0 < den) (normal : minExponent < unitExponent num den) :
    binade ≤ coefficient num den := by
  refine le_coefficient hd (le_trans ?_ (log2Ratio_spec hn hd).1)
  have unit : 52 + unitExponent num den = log2Ratio num den := by
    unfold unitExponent at *
    omega
  rw [cast_binade, ← zpow_add₀ (by norm_num), unit]

theorem unitExponent_mono (hn : 0 < num) (hd : 0 < den) (hn' : 0 < num') (hd' : 0 < den')
    (le : (num / den : ℚ) ≤ num' / den') : unitExponent num den ≤ unitExponent num' den' := by
  have low := (log2Ratio_spec hn hd).1
  have high := (log2Ratio_spec hn' hd').2
  have less := exponent_lt (low.trans le) high
  unfold unitExponent
  omega

theorem ratio_le_ratio (hd : 0 < den) (hd' : 0 < den') (le : num * den' ≤ num' * den) :
    (num / den : ℚ) ≤ num' / den' := by
  rw [div_le_div_iff₀ (by exact_mod_cast hd) (by exact_mod_cast hd')]
  exact_mod_cast le

/-- With one unit the coefficients are in the order of the ratios. -/
theorem coefficient_mono (hd : 0 < den) (hd' : 0 < den') (le : num * den' ≤ num' * den)
    (unit : unitExponent num den = unitExponent num' den') :
    coefficient num den ≤ coefficient num' den' := by
  unfold coefficient
  rw [unit]
  refine divNearest_mono (Nat.mul_pos hd (Nat.two_pow_pos _)) (Nat.mul_pos hd' (Nat.two_pow_pos _)) ?_
  generalize Nat.pow 2 (-unitExponent num' den').toNat = a
  generalize Nat.pow 2 (unitExponent num' den').toNat = b
  calc num * a * (den' * b) = num * den' * (a * b) := by ring
    _ ≤ num' * den * (a * b) := Nat.mul_le_mul_right (a * b) le
    _ = num' * a * (den * b) := by ring

theorem minExponent_le (num den : Nat) : minExponent ≤ unitExponent num den := Int.le_max_left _ _

/-- All coefficients of one unit stand below the full coefficients of a greater one. -/
theorem unitSteps_le {unit unit' : Int} (least : minExponent ≤ unit) (less : unit < unit') :
    (unit - minExponent).toNat * binade + 2 * binade ≤ (unit' - minExponent).toNat * binade + binade := by
  have next : (unit - minExponent).toNat + 1 ≤ (unit' - minExponent).toNat := by omega
  calc (unit - minExponent).toNat * binade + 2 * binade
      = ((unit - minExponent).toNat + 1) * binade + binade := by ring
    _ ≤ (unit' - minExponent).toNat * binade + binade :=
        Nat.add_le_add_right (Nat.mul_le_mul_right binade next) binade

/-- **A greater ratio is never rounded to a smaller step.** -/
theorem roundedSteps_mono (hn : 0 < num) (hd : 0 < den) (hn' : 0 < num') (hd' : 0 < den')
    (le : num * den' ≤ num' * den) : roundedSteps num den ≤ roundedSteps num' den' := by
  have units := unitExponent_mono hn hd hn' hd' (ratio_le_ratio hd hd' le)
  have least := minExponent_le num den
  unfold roundedSteps
  rcases Int.lt_or_eq_of_le units with less | same
  · -- The greater unit is not the smallest one, so that its coefficient has all its bits.
    calc (unitExponent num den - minExponent).toNat * binade + coefficient num den
        ≤ (unitExponent num den - minExponent).toNat * binade + 2 * binade :=
          Nat.add_le_add_left (coefficient_le_binade hn hd) _
      _ ≤ (unitExponent num' den' - minExponent).toNat * binade + binade := unitSteps_le least less
      _ ≤ (unitExponent num' den' - minExponent).toNat * binade + coefficient num' den' :=
          Nat.add_le_add_left (binade_le_coefficient hn' hd' (Int.lt_of_le_of_lt least less)) _
  · rw [same]
    exact Nat.add_le_add_left (coefficient_mono hd hd' le same) _

/-! ## Integers -/

/-- The step that a natural number is rounded to. -/
def naturalSteps (n : Nat) : Nat := if n = 0 then 0 else min infinitySteps (roundedSteps n 1)

theorem naturalSteps_le (n : Nat) : naturalSteps n ≤ infinitySteps := by
  unfold naturalSteps
  split <;> omega

theorem naturalSteps_lt_signBit (n : Nat) : naturalSteps n < signBit :=
  Nat.lt_of_le_of_lt (naturalSteps_le n) infinitySteps_lt

theorem ofInt_eq (n : Int) : ofInt n = ofSteps (n < 0) (naturalSteps n.natAbs) := by
  unfold ofInt naturalSteps
  split
  · next none =>
    rw [none]
    rfl
  · next some => exact ofRatio_eq _ (Nat.pos_iff_ne_zero.mpr some) 1

/-- Every integer is rounded to a number. -/
theorem isNaN_ofInt (n : Int) : (ofInt n).isNaN = false := by
  rw [ofInt_eq, isNaN, steps_ofSteps _ (naturalSteps_lt_signBit _)]
  exact decide_eq_false (Nat.not_lt.mpr (naturalSteps_le _))

theorem place_ofInt (n : Int) :
    (ofInt n).place = if n < 0 then -(naturalSteps n.natAbs : Int) else naturalSteps n.natAbs := by
  rw [ofInt_eq, place_ofSteps _ (naturalSteps_lt_signBit _)]
  simp

theorem naturalSteps_mono {m n : Nat} (le : m ≤ n) : naturalSteps m ≤ naturalSteps n := by
  unfold naturalSteps
  by_cases none : m = 0
  · simp [none]
  · have steps := @roundedSteps_mono m 1 n 1 (by omega) Nat.one_pos (by omega) Nat.one_pos (by omega)
    rw [if_neg none, if_neg (by omega)]
    omega

/-- **Rounding keeps the order of the integers.** -/
theorem place_ofInt_mono {m n : Int} (le : m ≤ n) : (ofInt m).place ≤ (ofInt n).place := by
  rw [place_ofInt, place_ofInt]
  by_cases below : n < 0
  · have := naturalSteps_mono (show n.natAbs ≤ m.natAbs by omega)
    rw [if_pos (by omega), if_pos below]
    omega
  · by_cases across : m < 0
    · rw [if_pos across, if_neg below]
      omega
    · have := naturalSteps_mono (show m.natAbs ≤ n.natAbs by omega)
      rw [if_neg across, if_neg below]
      omega

/-! ## The integers that are numbers

Up to `2 ^ 53` no integer is rounded: it is a whole number of its units, and they are counted exactly.
-/

theorem unitExponent_le_zero {n : Nat} (hn : 0 < n) (range : n < 2 * binade) : unitExponent n 1 ≤ 0 := by
  have low := (log2Ratio_spec hn Nat.one_pos).1
  have high : (n / (1 : Nat) : ℚ) < 2 ^ (53 : ℤ) := by
    rw [Nat.cast_one, div_one, ← cast_two_mul_binade]
    exact_mod_cast range
  have less := exponent_lt low high
  unfold unitExponent minExponent
  omega

theorem coefficient_of_nonpos {n : Nat} (unit : unitExponent n 1 ≤ 0) :
    coefficient n 1 = n * 2 ^ (-unitExponent n 1).toNat := by
  have whole : (unitExponent n 1).toNat = 0 := by omega
  unfold coefficient
  rw [whole]
  exact divNearest_one _

theorem coefficient_lt {n : Nat} (hn : 0 < n) (unit : unitExponent n 1 ≤ 0) :
    coefficient n 1 < 2 * binade := by
  have high := (log2Ratio_spec hn Nat.one_pos).2
  have next : log2Ratio n 1 + 1 ≤ 53 + unitExponent n 1 := by
    unfold unitExponent
    omega
  have whole : (n : ℚ) < 2 ^ (53 + unitExponent n 1) := by
    calc (n : ℚ) = n / (1 : Nat) := by simp
      _ < 2 ^ (log2Ratio n 1 + 1) := high
      _ ≤ 2 ^ (53 + unitExponent n 1) := zpow_le_zpow_right₀ (by norm_num) next
  have units : (n : ℚ) * 2 ^ (-unitExponent n 1) < 2 ^ (53 : ℤ) := by
    rw [zpow_neg, ← div_eq_mul_inv, div_lt_iff₀ (by positivity), ← zpow_add₀ (by norm_num)]
    exact whole
  have cast : (2 : ℚ) ^ (-unitExponent n 1) = (2 ^ (-unitExponent n 1).toNat : Nat) := by
    rw [two_zpow, Int.neg_neg, Int.toNat_of_nonpos unit]
    simp
  rw [coefficient_of_nonpos unit]
  rw [cast, ← cast_two_mul_binade] at units
  exact_mod_cast units

theorem minExponent_lt {n : Nat} (hn : 0 < n) : minExponent < unitExponent n 1 := by
  have high := (log2Ratio_spec hn Nat.one_pos).2
  have one : (2 : ℚ) ^ (0 : ℤ) ≤ n / (1 : Nat) := by
    rw [zpow_zero, Nat.cast_one, div_one]
    exact_mod_cast hn
  have less := exponent_lt one high
  unfold unitExponent minExponent
  omega

theorem roundedSteps_lt {m n : Nat} (hm : 0 < m) (less : m < n) (range : n ≤ 2 * binade) :
    roundedSteps m 1 < roundedSteps n 1 := by
  have units := @unitExponent_mono m 1 n 1 hm Nat.one_pos (by omega) Nat.one_pos
    (ratio_le_ratio Nat.one_pos Nat.one_pos (by omega))
  have fits := unitExponent_le_zero hm (show m < 2 * binade by omega)
  have least := minExponent_lt hm
  unfold roundedSteps
  rcases Int.lt_or_eq_of_le units with greater | same
  · have small := coefficient_lt hm fits
    have full := binade_le_coefficient (show 0 < n by omega) Nat.one_pos (Int.lt_trans least greater)
    have apart := unitSteps_le (Int.le_of_lt least) greater
    omega
  · have counted := coefficient_of_nonpos fits
    have counted' := coefficient_of_nonpos (same ▸ fits)
    have more : coefficient m 1 < coefficient n 1 := by
      rw [counted, counted', same]
      exact Nat.mul_lt_mul_of_pos_right less (Nat.two_pow_pos _)
    rw [same]
    omega

theorem roundedSteps_finite {n : Nat} (hn : 0 < n) (range : n < 2 * binade) :
    roundedSteps n 1 < infinitySteps := by
  have fits := unitExponent_le_zero hn range
  have small := coefficient_lt hn fits
  have units : (unitExponent n 1 - minExponent).toNat ≤ 1074 := by
    unfold minExponent
    omega
  have scaled := Nat.mul_le_mul_right binade units
  unfold roundedSteps infinitySteps
  omega

theorem naturalSteps_lt {m n : Nat} (less : m < n) (range : n ≤ 2 * binade) :
    naturalSteps m < naturalSteps n := by
  have some : n ≠ 0 := by omega
  unfold naturalSteps
  rw [if_neg some]
  by_cases none : m = 0
  · have full := binade_le_coefficient (show 0 < n by omega) Nat.one_pos (minExponent_lt (by omega))
    have positive : 0 < binade := Nat.two_pow_pos 52
    have past : 0 < infinitySteps := by decide
    rw [if_pos none]
    unfold roundedSteps
    omega
  · have hm : 0 < m := by omega
    have steps := roundedSteps_lt hm less range
    have finite := roundedSteps_finite hm (by omega)
    rw [if_neg none]
    omega

/-- **Up to `2 ^ 53` rounding keeps integers apart.** -/
theorem place_ofInt_lt {m n : Int} (less : m < n) (hm : m.natAbs ≤ 2 ^ 53) (hn : n.natAbs ≤ 2 ^ 53) :
    (ofInt m).place < (ofInt n).place := by
  have range : 2 * binade = 2 ^ 53 := rfl
  rw [place_ofInt, place_ofInt]
  by_cases below : n < 0
  · have := naturalSteps_lt (show n.natAbs < m.natAbs by omega) (by omega)
    rw [if_pos (by omega), if_pos below]
    omega
  · by_cases across : m < 0
    · have := naturalSteps_lt (show 0 < m.natAbs by omega) (by omega)
      rw [if_pos across, if_neg below]
      omega
    · have := naturalSteps_lt (show m.natAbs < n.natAbs by omega) (by omega)
      rw [if_neg across, if_neg below]
      omega

end QueryForest.Binary64
