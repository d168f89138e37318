import QueryForest.Calendar.Timestamp
import QueryForest.Number.Reading
import QueryForest.Text.Blank

set_option autoImplicit false

/-!
# Reading dates and timestamps

The texts are read generously. Blanks may stand around the numbers, a month or a day may have one
digit, and a year with a sign may have any number of digits, one without a sign at most four. A
timestamp puts a `T` or a blank between date and time and ends in an offset from universal time;
its seconds may have a fraction, of which nine digits count.
-/

namespace QueryForest.Calendar

open Text (dropBlanks isBlank)

/-- A number of at least one and at most `width` digits at the start of a text, and the rest. -/
def readDigits? (width : Nat) (cs : List Char) : Option (Nat × List Char) :=
  let digits := (cs.take width).takeWhile Char.isDigit
  if digits = [] then none else some (digitsValue digits, cs.drop digits.length)

/-- A number of one or two digits, blanks before it aside. -/
def readField? (cs : List Char) : Option (Nat × List Char) := readDigits? 2 (dropBlanks cs)

/-- A year, blanks before it aside. -/
def readYear? (cs : List Char) : Option (Int × List Char) :=
  match dropBlanks cs with
  | '-' :: rest => (readDigits? rest.length rest).map fun (n, rest) => (-(n : Int), rest)
  | '+' :: rest => (readDigits? rest.length rest).map fun (n, rest) => ((n : Int), rest)
  | rest => (readDigits? 4 rest).map fun (n, rest) => ((n : Int), rest)

/-- The rest of a text after a mark, blanks before it aside. -/
def readMark? (mark : Char) (cs : List Char) : Option (List Char) :=
  match dropBlanks cs with
  | c :: rest => if c = mark then some rest else none
  | [] => none

/-- A year, a month and a day at the start of a text. -/
def readDate? (cs : List Char) : Option (Date × List Char) := do
  let (year, cs) ← readYear? cs
  let (month, cs) ← readField? (← readMark? '-' cs)
  let (day, cs) ← readField? (← readMark? '-' cs)
  return (← Date.of? year month day, cs)

/-- The nanoseconds of a fraction, if there is one: digits past the ninth are dropped. -/
def readFraction? : List Char → Option (Nat × List Char)
  | '.' :: cs => do
    let (n, rest) ← readDigits? 9 cs
    return (n * Nat.pow 10 (9 - (cs.length - rest.length)), rest.dropWhile Char.isDigit)
  | cs => some (0, cs)

/-- The seconds and nanoseconds of a time of day; the sixtieth second is a leap second. -/
def readTime? (cs : List Char) : Option (Nat × Nat × List Char) := do
  let (hour, cs) ← readField? cs
  let (minute, cs) ← readField? (← readMark? ':' cs)
  let (second, cs) ← readField? (← readMark? ':' cs)
  let (nanos, cs) ← readFraction? cs
  guard (hour ≤ 23 ∧ minute ≤ 59 ∧ second ≤ 60)
  let leap := second / 60
  return (hour * 3600 + minute * 60 + (second - leap), nanos + leap * 1000000000, cs)

/-- The seconds of an offset from universal time: `Z`, `UTC`, or a sign, hours and minutes. -/
def readOffset? (cs : List Char) : Option (Int × List Char) :=
  if (cs.take 3).map Char.toUpper = ['U', 'T', 'C'] then some (0, cs.drop 3)
  else match cs with
  | 'Z' :: rest => some (0, rest)
  | 'z' :: rest => some (0, rest)
  | sign :: h :: g :: rest => do
    let negative ← match sign with
      | '+' => some false
      | '-' => some true
      | '−' => some true
      | _ => none
    match rest.dropWhile (fun c => c == ':' || isBlank c) with
    | m :: n :: rest =>
      guard ([h, g, m, n].all Char.isDigit)
      let hours := digitsValue [h, g]
      let minutes := digitsValue [m, n]
      guard (hours ≤ 23 ∧ minutes ≤ 59)
      let offset : Int := hours * 3600 + minutes * 60
      return (if negative then -offset else offset, rest)
    | _ => none
  | _ => none

end Calendar

/-- The date that a text names. -/
def Date.ofText? (s : String) : Option Date := do
  let (date, rest) ← Calendar.readDate? s.toList
  guard (Text.dropBlanks rest = [])
  return date

/-- The instant that a text names. -/
def Timestamp.ofText? (s : String) : Option Timestamp := do
  let (date, rest) ← Calendar.readDate? s.toList
  let rest ← match rest with
    | 'T' :: rest => some rest
    | 't' :: rest => some rest
    | ' ' :: rest => some rest
    | _ => none
  let (seconds, nanos, rest) ← Calendar.readTime? rest
  let (offset, rest) ← Calendar.readOffset? (Text.dropBlanks rest)
  guard (Text.dropBlanks rest = [])
  let days := Calendar.daysFromEpoch date.year date.month date.day
  Timestamp.of? (days * 86400 + seconds - offset) nanos

end QueryForest
