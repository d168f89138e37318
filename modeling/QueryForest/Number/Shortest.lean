import QueryForest.Number.Rounding

set_option autoImplicit false

/-!
# Shortest decimals

The decimal of the fewest digits that reads back as a given binary64 number. Among the decimals of
that many digits the nearest one is taken; when two are equally near, `Tie` decides.

The search is exact. The magnitude and the two ends of the interval of numbers that round to it
are integer multiples of one small power of ten, and on the grid of the decimals of `n` digits
only the two neighbours of the magnitude can be the nearest one inside the interval.
-/

namespace QueryForest

/-- The decimal `coefficient * 10 ^ exponent`. -/
structure Decimal where
  coefficient : Nat
  exponent : Int
  deriving DecidableEq

/-- Which of two equally near decimals is taken. -/
inductive Tie where
  | up
  | even
  deriving DecidableEq

namespace Decimal

/-- The same number with no zero at the end of its coefficient, for coefficients of at most `fuel`
digits. -/
def stripZeros : (fuel : Nat) → Decimal → Decimal
  | 0, d => d
  | fuel + 1, d =>
    if d.coefficient ≠ 0 ∧ d.coefficient % 10 = 0 then
      stripZeros fuel ⟨d.coefficient / 10, d.exponent + 1⟩
    else d

end Decimal

/-- The numbers that read as one binary64 magnitude, in units of `10 ^ unit`: the magnitude
`value` itself, the ends `low` and `high`, and whether the ends belong to the interval. -/
structure ReadingInterval where
  low : Nat
  value : Nat
  high : Nat
  closed : Bool
  unit : Int

namespace ReadingInterval

/-- The interval of a finite number. The gap below a power of two is half as wide as the one
above, except at the smallest exponent. -/
def of (x : Binary64) : ReadingInterval :=
  let m := x.significand
  let q := x.exponent - 2
  let scale := if q < 0 then Nat.pow 5 (-q).toNat else Nat.pow 2 q.toNat
  let below := if m = Binary64.binade ∧ x.exponent ≠ Binary64.minExponent then 1 else 2
  { low := (4 * m - below) * scale
    value := 4 * m * scale
    high := (4 * m + 2) * scale
    closed := m % 2 = 0
    unit := min q 0 }

def contains (r : ReadingInterval) (n : Nat) : Bool :=
  if r.closed then r.low ≤ n && n ≤ r.high else r.low < n && n < r.high

/-- The multiple of `step` nearest to the value among its two neighbours inside the interval. -/
def nearest? (r : ReadingInterval) (tie : Tie) (step : Nat) : Option Nat :=
  let k := r.value / step
  let below := r.value - k * step
  let above := (k + 1) * step - r.value
  match r.contains (k * step), r.contains ((k + 1) * step) with
  | false, false => none
  | true, false => some k
  | false, true => some (k + 1)
  | true, true =>
    if below < above then some k
    else if above < below then some (k + 1)
    else match tie with
      | .up => some (k + 1)
      | .even => some (k + k % 2)

/-- The first grid with a hit, trying the steps `10 ^ places`, `10 ^ (places - 1)`, … in turn. The
step `1` always hits, since the value is a multiple of it. -/
def shortest (r : ReadingInterval) (tie : Tie) : (places : Nat) → Decimal
  | 0 => ⟨r.value, r.unit⟩
  | places + 1 =>
    match r.nearest? tie (Nat.pow 10 (places + 1)) with
    | some k => ⟨k, r.unit + ((places + 1 : Nat) : Int)⟩
    | none => shortest r tie places

end ReadingInterval

/-- The shortest decimal of the magnitude of a finite number. -/
def Binary64.shortest (tie : Tie) (x : Binary64) : Decimal :=
  if x.significand = 0 then ⟨0, 0⟩ else
    let r := ReadingInterval.of x
    (r.shortest tie ((Nat.repr r.value).length - 1)).stripZeros 20

end QueryForest
