set_option autoImplicit false

/-!
# Binary floating point numbers

The numbers of the format binary64, kept as their 64 bits. Below the sign bit the encoding counts:
its remaining 63 bits are the number of steps that lead from zero to the magnitude, one
representable number at a time. Equality and order are therefore those of the step counts, with
both zeros at step zero, and the numbers past the step of infinity are no numbers at all.
-/

namespace QueryForest

/-- A number of the format binary64, as its bits. -/
structure Binary64 where
  bits : UInt64
  deriving DecidableEq

namespace Binary64

/-- The value of the sign bit. -/
def signBit : Nat := Nat.pow 2 63

/-- The number of steps from one power of two to the next. -/
def binade : Nat := Nat.pow 2 52

/-- The step of infinity: the finite magnitudes are the steps below it. -/
def infinitySteps : Nat := 0x7ff * binade

/-- The exponent of the smallest magnitude, `2 ^ minExponent`. -/
def minExponent : Int := -1074

/-- Whether the sign bit is set. -/
def isNegative (x : Binary64) : Bool := signBit ≤ x.bits.toNat

/-- How many representable magnitudes lie below that of `x`. -/
def steps (x : Binary64) : Nat := x.bits.toNat % signBit

def isNaN (x : Binary64) : Bool := infinitySteps < x.steps

def isFinite (x : Binary64) : Bool := x.steps < infinitySteps

/-- The number with a given sign and step. -/
def ofSteps (negative : Bool) (steps : Nat) : Binary64 :=
  ⟨UInt64.ofNat (if negative then signBit + steps else steps)⟩

def zero (negative : Bool) : Binary64 := ofSteps negative 0

def infinity (negative : Bool) : Binary64 := ofSteps negative infinitySteps

/-- The quiet number that is no number. -/
def nan : Binary64 := ofSteps false (infinitySteps + binade / 2)

/-- The same magnitude under the other sign. -/
def neg (x : Binary64) : Binary64 := ofSteps (!x.isNegative) x.steps

/-- The integer `m` of the magnitude `m * 2 ^ q` of a finite number. -/
def significand (x : Binary64) : Nat :=
  if x.steps / binade = 0 then x.steps else binade + x.steps % binade

/-- The exponent `q` of the magnitude `m * 2 ^ q` of a finite number. -/
def exponent (x : Binary64) : Int :=
  minExponent + ((x.steps / binade - 1 : Nat) : Int)

/-! ## Comparison -/

/-- The place of a number on the line of all steps; both zeros stand at `0`. -/
def place (x : Binary64) : Int := if x.isNegative then -(x.steps : Int) else x.steps

/-- The order of two numbers. What is no number has no order, not even to itself. -/
def compare? (x y : Binary64) : Option Ordering :=
  if x.isNaN || y.isNaN then none else some (compare x.place y.place)

/-- Numeric equality: the two zeros are equal, and what is no number equals nothing. -/
def equals (x y : Binary64) : Bool := x.compare? y == some .eq

end Binary64

end QueryForest
