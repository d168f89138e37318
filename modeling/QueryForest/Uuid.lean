import QueryForest.Text.Hex

set_option autoImplicit false

/-!
# Universally unique identifiers

Identifiers of 128 bits. They are written as 32 lower-case hexadecimal digits in groups of 8, 4,
4, 4 and 12, and read in this form, without the hyphens, between braces, or after `urn:uuid:`.
Reading takes digits and scheme in either case.
-/

namespace QueryForest

/-- An identifier of 128 bits. -/
structure Uuid where
  value : BitVec 128
  deriving DecidableEq

namespace Uuid

def text (u : Uuid) : String :=
  let digits := Text.hexDigits 32 u.value.toNat
  let group (start width : Nat) := (digits.drop start).take width
  String.ofList (group 0 8 ++ '-' :: group 8 4 ++ '-' :: group 12 4 ++ '-' :: group 16 4 ++
    '-' :: group 20 12)

/-- The identifier of 32 hexadecimal digits. -/
def ofDigits? (digits : List Char) : Option Uuid :=
  if digits.length = 32 then (Text.hexNumber? digits).map fun n => ⟨BitVec.ofNat 128 n⟩ else none

/-- The identifier written in five groups. -/
def ofGroups? (cs : List Char) : Option Uuid :=
  let group (start width : Nat) := (cs.drop start).take width
  if cs.length = 36 ∧ [cs[8]?, cs[13]?, cs[18]?, cs[23]?].all (· == some '-') then
    ofDigits? (group 0 8 ++ group 9 4 ++ group 14 4 ++ group 19 4 ++ group 24 12)
  else none

/-- The identifier that a text writes. -/
def ofText? (s : String) : Option Uuid :=
  let cs := s.toList
  if cs.length = 32 then ofDigits? cs
  else if cs.length = 38 ∧ cs.head? = some '\x7b' ∧ cs.getLast? = some '\x7d' then
    ofGroups? ((cs.drop 1).take 36)
  else if cs.length = 45 ∧ (cs.take 9).map Char.toLower = "urn:uuid:".toList then
    ofGroups? (cs.drop 9)
  else ofGroups? cs

end Uuid

end QueryForest
