import QueryForest.Json.Basic
import QueryForest.Number.Rounding
import QueryForest.Number.Reading

set_option autoImplicit false

/-!
# Numerals of JSON

A number as it is written, and the value it is read as. Integers of 64 bits are exact. Any other
numeral is read in floating point with few operations: the leading digits that fit an unsigned
integer of 64 bits are rounded once and then multiplied or divided by one rounded power of ten, so
the result can be a neighbour of the nearest number.
-/

namespace QueryForest

/-- A number of JSON in floating point, rounded if it is an integer that needs it. -/
def JsonNumber.toBinary64 : JsonNumber → Binary64
  | unsigned n => Binary64.ofNat n.toNat
  | negative n => Binary64.ofInt n.toInt
  | float x => x

/-- A numeral, cut at its point and its exponent mark. -/
structure Numeral where
  negative : Bool
  whole : List Char
  /-- The digits after the point; empty when there is no point. -/
  fraction : List Char
  /-- The sign (`true` for minus) and the digits of the exponent. -/
  exponent : Option (Bool × List Char)
  deriving DecidableEq

namespace Numeral

/-- Cuts an exponent; its digits must not be missing. -/
def cutExponent? : List Char → Option (Option (Bool × List Char))
  | [] => some none
  | c :: rest =>
    if c = 'e' ∨ c = 'E' then
      let (negative, digits) := Binary64.splitSign rest
      if digits ≠ [] ∧ digits.all Char.isDigit then some (some (negative, digits)) else none
    else none

/-- Cuts a text that is a numeral as a whole. A leading zero stands alone before the point, and a
point has digits on both sides. -/
def ofChars? (cs : List Char) : Option Numeral := do
  let (negative, cs) := match cs with
    | '-' :: rest => (true, rest)
    | rest => (false, rest)
  let whole := cs.takeWhile Char.isDigit
  guard (whole ≠ [] ∧ (whole.head? = some '0' → whole.length = 1))
  match cs.dropWhile Char.isDigit with
  | '.' :: rest =>
    let fraction := rest.takeWhile Char.isDigit
    guard (fraction ≠ [])
    return ⟨negative, whole, fraction, ← cutExponent? (rest.dropWhile Char.isDigit)⟩
  | rest => return ⟨negative, whole, [], ← cutExponent? rest⟩

/-- The largest unsigned integer of 64 bits. -/
def maxUnsigned : Nat := Nat.pow 2 64 - 1

/-- Appends digits to a significand as long as it fits 64 bits; also gives the digits left over.
-/
def absorb (significand : Nat) : List Char → Nat × List Char
  | [] => (significand, [])
  | c :: cs =>
    let next := 10 * significand + (c.toNat - 0x30)
    if next ≤ maxUnsigned then absorb next cs else (significand, c :: cs)

/-- The greatest exponent whose power of ten is a finite number. -/
def maxPower : Nat := 308

/-- Multiplies by a power of ten, or fails when the result is too large. An exponent below
`-maxPower` is spent in several divisions. -/
def scale? (x : Binary64) (exponent : Int) : Option Binary64 :=
  if exponent.natAbs ≤ maxPower then
    let power := Binary64.ofNat (Nat.pow 10 exponent.natAbs)
    if 0 ≤ exponent then
      let y := x.mul power
      if y.isFinite then some y else none
    else some (x.div power)
  else if x.steps = 0 then some x
  else if 0 < exponent then none
  else scale? (x.div (Binary64.ofNat (Nat.pow 10 maxPower))) (exponent + maxPower)
  termination_by exponent.natAbs
  decreasing_by simp only [maxPower] at *; omega

/-- The value of a numeral without a point and an exponent that fits 64 bits. A negative zero is a
floating point number, as is what lies below the least signed integer. -/
def integer (negative : Bool) (n : Nat) : JsonNumber :=
  if negative then
    if 0 < n ∧ n ≤ Nat.pow 2 63 then .negative (Int64.ofInt (-n)) else .float (Binary64.ofNat n).neg
  else .unsigned (UInt64.ofNat n)

/-- The value of a numeral, or `none` when it is too large for a floating point number. -/
def value? (n : Numeral) : Option JsonNumber :=
  let (significand, extra) := absorb 0 n.whole
  if extra = [] ∧ n.fraction = [] ∧ n.exponent = none then some (integer n.negative significand)
  else
    let (significand, unused) := absorb significand n.fraction
    let exponent : Int := match n.exponent with
      | none => 0
      | some (true, digits) => -(digitsValue digits : Int)
      | some (false, digits) => digitsValue digits
    let places : Int := (extra.length : Int) - (n.fraction.length - unused.length : Nat)
    (scale? (Binary64.ofNat significand) (places + exponent)).map fun x =>
      .float (if n.negative then x.neg else x)

end Numeral

end QueryForest
