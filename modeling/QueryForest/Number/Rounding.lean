import QueryForest.Number.Binary64

set_option autoImplicit false

/-!
# Rounding to binary64

A positive rational is rounded to the nearest binary64 magnitude, a tie going to the even
significand and what lies past the largest magnitude to infinity. Products, quotients and
conversions are computed exactly as rationals first and rounded once.

The rounding works on the step count of `Number/Binary64.lean`: the magnitude `m * 2 ^ q` with `m
< 2 ^ 53` and `q` at least the smallest exponent stands at the step `(q - minExponent) * 2 ^ 52 +
m`, and when rounding carries `m` to `2 ^ 53` the same formula gives the step of `2 ^ 52 * 2 ^ (q
+ 1)`.
-/

namespace QueryForest.Binary64

/-- The quotient of two naturals, rounded to the nearest natural; a tie goes to the even one. -/
def divNearest (num den : Nat) : Nat :=
  let q := num / den
  let r := num % den
  if 2 * r < den then q else if den < 2 * r then q + 1 else q + q % 2

/-- The exponent of the highest power of two that is at most `num / den`. -/
def log2Ratio (num den : Nat) : Int :=
  let e : Int := (num.log2 : Int) - den.log2
  if den * Nat.pow 2 e.toNat ≤ num * Nat.pow 2 (-e).toNat then e else e - 1

/-- The binary64 number nearest to `num / den`, under a given sign. -/
def ofRatio (negative : Bool) (num den : Nat) : Binary64 :=
  if num = 0 then zero negative else
    let q := max minExponent (log2Ratio num den - 52)
    let m := divNearest (num * Nat.pow 2 (-q).toNat) (den * Nat.pow 2 q.toNat)
    ofSteps negative (min infinitySteps ((q - minExponent).toNat * binade + m))

def ofNat (n : Nat) : Binary64 := ofRatio false n 1

def ofInt (n : Int) : Binary64 := ofRatio (n < 0) n.natAbs 1

/-- The numerator of the magnitude of a finite number. -/
def numerator (x : Binary64) : Nat := x.significand * Nat.pow 2 x.exponent.toNat

/-- The denominator of the magnitude of a finite number, a power of two. -/
def denominator (x : Binary64) : Nat := Nat.pow 2 (-x.exponent).toNat

/-- The product of two finite numbers, rounded. -/
def mul (x y : Binary64) : Binary64 :=
  ofRatio (x.isNegative != y.isNegative) (x.numerator * y.numerator) (x.denominator * y.denominator)

/-- The quotient of two finite numbers, rounded; the divisor is not zero. -/
def div (x y : Binary64) : Binary64 :=
  ofRatio (x.isNegative != y.isNegative) (x.numerator * y.denominator) (x.denominator * y.numerator)

/-- The number `coefficient * 10 ^ exponent`, rounded. A coefficient of `k` digits is less than
`10 ^ k`, so exponents far outside the range of the format are decided without computing the
power. -/
def ofDecimal (negative : Bool) (coefficient : Nat) (exponent : Int) : Binary64 :=
  let digits : Int := ((Nat.repr coefficient).length : Nat)
  if coefficient = 0 ∨ digits + exponent < -400 then zero negative
  else if 400 < digits + exponent then infinity negative
  else ofRatio negative (coefficient * Nat.pow 10 exponent.toNat) (Nat.pow 10 (-exponent).toNat)

/-- A number of the format binary32, given by its bits, as a number of binary64. -/
def ofBinary32 (bits : UInt32) : Binary64 :=
  let negative : Bool := Nat.pow 2 31 ≤ bits.toNat
  let steps := bits.toNat % Nat.pow 2 31
  let field := steps / Nat.pow 2 23
  let low := steps % Nat.pow 2 23
  if field = 0xff then
    if low = 0 then infinity negative else ofSteps negative (infinitySteps + low * Nat.pow 2 29)
  else if field = 0 then ofRatio negative low (Nat.pow 2 149)
  else ofRatio negative ((Nat.pow 2 23 + low) * Nat.pow 2 field) (Nat.pow 2 150)

end QueryForest.Binary64
