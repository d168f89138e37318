import QueryForest.Value.Order
import QueryForest.Proofs.Json.Equality

set_option autoImplicit false

/-!
# Equality and hashing of values

Equality is symmetric and transitive, and a value equals itself unless it holds a `NaN`. Equal values have
the same hash only when they are the same: where they differ, in the sign of a zero, so does what the hash is
computed from.
-/

namespace QueryForest.Value

/-- Whether a value is a `NaN` or JSON that holds one. -/
def holdsNaN : Value → Bool
  | float x => x.isNaN
  | json j => j.holdsNaN
  | _ => false

/-- The same value, with one zero in place of both floating point zeros. -/
def oneZero : Value → Value
  | float x => float x.oneZero
  | json j => json j.oneZero
  | v => v

/-- Values are equal when they hold no `NaN` and are the same up to the signs of their zeros. -/
theorem equals_iff (a b : Value) :
    a.equals b = true ↔ a.holdsNaN = false ∧ b.holdsNaN = false ∧ a.oneZero = b.oneZero := by
  cases a with
  | float => cases b <;> simp [equals, holdsNaN, oneZero, Binary64.equals_iff, Binary64.place_eq_iff]
  | json => cases b <;> simp [equals, holdsNaN, oneZero, Json.equals_iff]
  | _ => cases b <;> simp [equals, holdsNaN, oneZero]

theorem equals_symm {a b : Value} (same : a.equals b = true) : b.equals a = true := by
  obtain ⟨ha, hb, zeros⟩ := (equals_iff a b).mp same
  exact (equals_iff b a).mpr ⟨hb, ha, zeros.symm⟩

theorem equals_trans {a b c : Value} (hab : a.equals b = true) (hbc : b.equals c = true) :
    a.equals c = true := by
  obtain ⟨ha, -, zeros⟩ := (equals_iff a b).mp hab
  obtain ⟨-, hc, zeros'⟩ := (equals_iff b c).mp hbc
  exact (equals_iff a c).mpr ⟨ha, hc, zeros.trans zeros'⟩

theorem equals_self (a : Value) : a.equals a = true ↔ a.holdsNaN = false := by
  simp [equals_iff]

/-- **Equal values with the same hash data are the same value.** -/
theorem hashData_eq_iff {a b : Value} (same : a.equals b = true) : a.hashData = b.hashData ↔ a = b := by
  constructor
  · intro hash
    cases a with
    | float x =>
        cases b with
        | float y =>
            cases x
            cases y
            simpa [hashData] using hash
        | _ => contradiction
    | json j =>
        cases b with
        | json j' =>
            have texts : j.text = j'.text := by simpa [hashData] using hash
            rcases Json.text_apart j j' same with rfl | apart
            · rfl
            · exact absurd texts apart.ne
        | _ => contradiction
    | _ => cases b <;> simp_all [equals]
  · intro identical
    rw [identical]

/-- **Equality and hashing of values.** Equality is symmetric and transitive, and a value equals itself when
it holds no `NaN`. It does not tell the zeros apart, but the hash does: equal values have the same hash data
only if they are the same. -/
theorem equals_consistent (a b c : Value) :
    (a.equals a = true ↔ a.holdsNaN = false) ∧
      (a.equals b = true → b.equals a = true) ∧
      (a.equals b = true → b.equals c = true → a.equals c = true) ∧
      (a.equals b = true ↔ a.holdsNaN = false ∧ b.holdsNaN = false ∧ a.oneZero = b.oneZero) ∧
      (a.equals b = true → (a.hashData = b.hashData ↔ a = b)) :=
  ⟨equals_self a, equals_symm, equals_trans, equals_iff a b, hashData_eq_iff⟩

/-- JSON with a zero inside. -/
def nestedZero (negative : Bool) : Value :=
  json (.object [("a", .array [.null, .number (.float (.zero negative))])])

/-- The zeros are equal inside of JSON, in both directions and along a chain. -/
theorem equals_consistent_nested :
    (nestedZero true).equals (nestedZero false) = true ∧
      (nestedZero false).equals (nestedZero false) = true ∧
      ((nestedZero false).hashData = (nestedZero true).hashData ↔ nestedZero false = nestedZero true) := by
  have same : (nestedZero false).equals (nestedZero true) = true := by decide +kernel
  obtain ⟨-, symm, trans, -, hash⟩ :=
    equals_consistent (nestedZero false) (nestedZero true) (nestedZero false)
  exact ⟨symm same, trans same (symm same), hash same⟩

/-- `NaN` does not equal itself, and the two zeros are equal and have different hash data, also inside of
JSON: values are no hash keys. -/
theorem not_hash_keys :
    (float .nan).equals (float .nan) = false ∧
      (float (.zero false)).equals (float (.zero true)) = true ∧
      (float (.zero false)).hashData ≠ (float (.zero true)).hashData ∧
      (nestedZero false).equals (nestedZero true) = true ∧
      (nestedZero false).hashData ≠ (nestedZero true).hashData := by
  decide +kernel

end QueryForest.Value
