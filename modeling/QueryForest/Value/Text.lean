import QueryForest.Value.Basic
import QueryForest.Calendar.Reading
import QueryForest.Text.Doubled

set_option autoImplicit false

/-!
# Values as text and as numbers

`Value.literal` writes a value as a literal of SQL. Text stands between quotation marks with the
marks inside it doubled, so no value can end its own literal early. `Value.asText?` and
`Value.asNumber?` read the content of the kinds that have one.
-/

namespace QueryForest.Value

/-- The mark around literals. -/
def literalMark : Char := '\x27'

/-- A text as a literal. -/
def quoted (s : String) : String := Text.enclosed literalMark s

/-- A value as a literal of SQL. -/
def literal : Value → String
  | int n => toString n.toInt
  | uint n => toString n.toNat
  | float x => NumberLayout.plain.write x
  | string s => quoted s
  | boolean b => toString b
  | json j => quoted j.text
  | uuid u => quoted u.text
  | bytes b => "X" ++ quoted (Text.hexBytes b)
  | date d => quoted d.text
  | timestamp t => quoted t.text
  | stringArray items => "(" ++ String.intercalate ", " (items.map quoted) ++ ")"
  | null => "NULL"

/-- The content of a value as text, without quotation marks. A JSON value has one when it is a
string. -/
def asText? : Value → Option String
  | int n => some (toString n.toInt)
  | uint n => some (toString n.toNat)
  | float x => some (NumberLayout.plain.write x)
  | string s => some s
  | boolean b => some (toString b)
  | json (.string s) => some s
  | json _ => none
  | uuid u => some u.text
  | date d => some d.text
  | timestamp t => some t.offsetText
  | bytes _ => none
  | stringArray _ => none
  | null => none

/-- The content of a value as a floating point number; a string is read as one. -/
def asNumber? : Value → Option Binary64
  | int n => some (Binary64.ofInt n.toInt)
  | uint n => some (Binary64.ofNat n.toNat)
  | float x => some x
  | string s => Binary64.ofText? s
  | json (.number n) => some n.toBinary64
  | _ => none

end QueryForest.Value
