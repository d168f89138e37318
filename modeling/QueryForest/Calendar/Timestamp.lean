import QueryForest.Calendar.Date

set_option autoImplicit false

/-!
# Timestamps

Instants of universal time, as seconds from the start of 1970 and nanoseconds into the second. A
leap second has no count of its own: it is written `:60` and kept as the nanoseconds past one
thousand million of the second before it, which is the last one of a minute.
-/

namespace QueryForest

/-- An instant of universal time. -/
structure Timestamp where
  seconds : Int
  nanos : Nat
  nanos_lt : nanos < 1000000000 ∨ (nanos < 2000000000 ∧ seconds % 60 = 59)
  deriving DecidableEq

namespace Timestamp

/-- The seconds of the first and of the last day of the calendar. -/
def minSeconds : Int := Calendar.daysFromEpoch Calendar.minYear 1 1 * 86400

def maxSeconds : Int := Calendar.daysFromEpoch Calendar.maxYear 12 31 * 86400 + 86399

/-- The instant of a number of seconds and nanoseconds, if the calendar has it. -/
def of? (seconds : Int) (nanos : Nat) : Option Timestamp :=
  if minSeconds ≤ seconds ∧ seconds ≤ maxSeconds then
    if h : nanos < 1000000000 ∨ (nanos < 2000000000 ∧ seconds % 60 = 59) then
      some ⟨seconds, nanos, h⟩
    else none
  else none

/-- The fraction of a second, in as few groups of three digits as hold it. -/
def fractionText (nanos : Nat) : String :=
  if nanos = 0 then ""
  else if nanos % 1000000 = 0 then "." ++ Calendar.padded 3 (nanos / 1000000)
  else if nanos % 1000 = 0 then "." ++ Calendar.padded 6 (nanos / 1000)
  else "." ++ Calendar.padded 9 nanos

/-- The date of an instant. -/
def dateText (t : Timestamp) : String :=
  let (year, month, day) := Calendar.fromDays (t.seconds / 86400)
  Calendar.dateText year month day

/-- The time of day of an instant. -/
def timeText (t : Timestamp) : String :=
  let s := (t.seconds % 86400).toNat
  let leap := t.nanos / 1000000000
  Calendar.padded 2 (s / 3600) ++ ":" ++ Calendar.padded 2 (s / 60 % 60) ++ ":" ++
    Calendar.padded 2 (s % 60 + leap) ++ fractionText (t.nanos % 1000000000)

/-- Date and time in words: `2024-01-01 00:00:00 UTC`. -/
def text (t : Timestamp) : String := t.dateText ++ " " ++ t.timeText ++ " UTC"

/-- The form of RFC 3339 with the offset written as numbers: `2024-01-01T00:00:00+00:00`. -/
def offsetText (t : Timestamp) : String := t.dateText ++ "T" ++ t.timeText ++ "+00:00"

/-- The form of RFC 3339 with the offset written as a letter: `2024-01-01T00:00:00Z`. -/
def zuluText (t : Timestamp) : String := t.dateText ++ "T" ++ t.timeText ++ "Z"

/-- Instants are ordered by seconds, then nanoseconds. -/
def order (a b : Timestamp) : Ordering :=
  (compare a.seconds b.seconds).then (compare a.nanos b.nanos)

end Timestamp

end QueryForest
