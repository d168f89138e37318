import QueryForest.Number.Shortest

set_option autoImplicit false

/-!
# Number texts

How a shortest decimal is laid out as text. A layout says up to which decimal exponents the digits
are written positionally; outside of them the notation is scientific, with one digit before the
point and the sign of the exponent always written (`1.5e+16`, `1e-6`).
-/

namespace QueryForest

/-- The decisions of a number format. The decimal exponent of a number is that of its first digit.
-/
structure NumberLayout where
  /-- Which of two equally near shortest decimals is written. -/
  tie : Tie
  /-- The decimal exponents written positionally; `none` writes all of them so. -/
  positional : Option (Int × Int)
  /-- Whether a whole number in positional notation ends in `.0`. -/
  wholePoint : Bool

namespace NumberLayout

/-- Numbers in running text: every digit positionally, whole numbers without a point. -/
def plain : NumberLayout := ⟨.up, none, false⟩

/-- Numbers in JSON: positional from the fifth place after the point to the sixteenth before it,
and always distinguishable from an integer. -/
def json : NumberLayout := ⟨.even, some (-5, 15), true⟩

/-- The digits of a coefficient followed by the exponent of ten `exponent`, positionally. -/
def placed (digits : List Char) (exponent : Int) (wholePoint : Bool) : List Char :=
  let places := digits.length + exponent
  if 0 ≤ exponent then
    digits ++ List.replicate exponent.toNat '0' ++ (if wholePoint then ['.', '0'] else [])
  else if 0 < places then
    digits.take places.toNat ++ '.' :: digits.drop places.toNat
  else
    '0' :: '.' :: List.replicate (-places).toNat '0' ++ digits

/-- Digits in scientific notation, the first of them standing for `10 ^ exponent`. -/
def scientific (digits : List Char) (exponent : Int) : List Char :=
  let fraction := match digits.drop 1 with
    | [] => []
    | rest => '.' :: rest
  digits.take 1 ++ fraction ++ 'e' :: (if exponent < 0 then '-' else '+') ::
    (Nat.repr exponent.natAbs).toList

/-- The text of a decimal under a layout. -/
def writeDecimal (layout : NumberLayout) (d : Decimal) : List Char :=
  let digits := (Nat.repr d.coefficient).toList
  let first := d.exponent + digits.length - 1
  let inRange := match layout.positional with
    | none => true
    | some (low, high) => low ≤ first && first ≤ high
  if inRange then placed digits d.exponent layout.wholePoint else scientific digits first

/-- The text of a number: its shortest decimal after a sign, or the names `inf` and `NaN`. -/
def write (layout : NumberLayout) (x : Binary64) : String :=
  if x.isNaN then "NaN" else
    let magnitude := if x.isFinite then layout.writeDecimal (x.shortest layout.tie)
      else ['i', 'n', 'f']
    String.ofList (if x.isNegative then '-' :: magnitude else magnitude)

end NumberLayout

end QueryForest
