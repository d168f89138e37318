import QueryForest.Number.Rounding

set_option autoImplicit false

/-!
# Reading numbers

The binary64 number that a text names. The text is a sign, which may be missing, and then either
decimal digits with at most one point among them and an exponent, or one of the names of infinity
and of what is no number, in letters of either case. Nothing may stand before or after it, and the
value is the nearest one to the decimal however many digits are given.
-/

namespace QueryForest

/-- The number that decimal digits write. -/
def digitsValue (digits : List Char) : Nat :=
  digits.foldl (fun n c => 10 * n + (c.toNat - 0x30)) 0

namespace Binary64

/-- Splits a leading sign off a text; `true` stands for a minus sign. -/
def splitSign : List Char → Bool × List Char
  | '-' :: rest => (true, rest)
  | '+' :: rest => (false, rest)
  | rest => (false, rest)

/-- The exponent after the digits of a number: nothing at all, or `e`, a sign and digits. -/
def readExponent? : List Char → Option Int
  | [] => some 0
  | c :: rest =>
    if c = 'e' ∨ c = 'E' then
      let (negative, digits) := splitSign rest
      if digits ≠ [] ∧ digits.all Char.isDigit then
        some (if negative then -(digitsValue digits : Int) else digitsValue digits)
      else none
    else none

/-- An unsigned decimal. A digit must stand before or after the point. -/
def readDecimal? (negative : Bool) (cs : List Char) : Option Binary64 := do
  let whole := cs.takeWhile Char.isDigit
  let rest := cs.dropWhile Char.isDigit
  let (fraction, rest) := match rest with
    | '.' :: rest => (rest.takeWhile Char.isDigit, rest.dropWhile Char.isDigit)
    | rest => ([], rest)
  guard (whole ≠ [] ∨ fraction ≠ [])
  let exponent ← readExponent? rest
  return ofDecimal negative (digitsValue (whole ++ fraction)) (exponent - fraction.length)

/-- The names of the values that have no digits, in lower case. -/
def readName? (negative : Bool) (cs : List Char) : Option Binary64 :=
  let name := String.ofList (cs.map Char.toLower)
  if name = "inf" ∨ name = "infinity" then some (infinity negative)
  else if name = "nan" then some nan
  else none

/-- The number that a text names. -/
def ofText? (s : String) : Option Binary64 :=
  let (negative, rest) := splitSign s.toList
  (readDecimal? negative rest).or (readName? negative rest)

end Binary64

end QueryForest
