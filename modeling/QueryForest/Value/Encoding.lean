import QueryForest.Value.Basic
import QueryForest.Calendar.Reading

set_option autoImplicit false

/-!
# Values in JSON

A value is written as an object whose only key names its kind, and `null` as the word `"Null"`.
Reading takes what writing gives, and also the freer forms of dates, timestamps and identifiers. A
number that is not finite is written as `null`, which is not read back.
-/

namespace QueryForest.Value

/-- The JSON text of a value. -/
def jsonText : Value → String
  | int n => Json.objectText [("Int", toString n.toInt)]
  | uint n => Json.objectText [("Uint", toString n.toNat)]
  | float x => Json.objectText [("Float", Json.floatText x)]
  | string s => Json.objectText [("String", Json.quote s)]
  | boolean b => Json.objectText [("Boolean", toString b)]
  | json j => Json.objectText [("Json", j.text)]
  | uuid u => Json.objectText [("Uuid", Json.quote u.text)]
  | bytes b => Json.objectText [("Bytes", Json.arrayText (b.map fun n => toString n.toNat))]
  | date d => Json.objectText [("Date", Json.quote d.text)]
  | timestamp t => Json.objectText [("Timestamp", Json.quote t.zuluText)]
  | stringArray items => Json.objectText [("StringArray", Json.arrayText (items.map Json.quote))]
  | null => Json.quote "Null"

/-- A signed integer of 64 bits. -/
def int? : JsonNumber → Option Int64
  | .unsigned n => if n.toNat < Nat.pow 2 63 then some (Int64.ofInt n.toNat) else none
  | .negative n => some n
  | .float _ => none

def uint? : JsonNumber → Option UInt64
  | .unsigned n => some n
  | _ => none

def byte? (n : JsonNumber) : Option UInt8 := do
  let n ← uint? n
  guard (n.toNat < 256)
  return UInt8.ofNat n.toNat

/-- The value of a document. -/
def ofDocument? (d : Document) : Option Value := do
  match ← d.choice? with
  | ("Null", none) => some null
  | ("Null", some .null) => some null
  | ("Int", some d) => return int (← int? (← d.number?))
  | ("Uint", some d) => return uint (← uint? (← d.number?))
  | ("Float", some d) => return float (← d.number?).toBinary64
  | ("String", some d) => return string (← d.string?)
  | ("Boolean", some d) => return boolean (← d.bool?)
  | ("Json", some d) => return json (← d.json?)
  | ("Uuid", some d) => return uuid (← Uuid.ofText? (← d.string?))
  | ("Bytes", some d) => return bytes (← (← d.array?).mapM fun d => do byte? (← d.number?))
  | ("Date", some d) => return date (← Date.ofText? (← d.string?))
  | ("Timestamp", some d) => return timestamp (← Timestamp.ofText? (← d.string?))
  | ("StringArray", some d) => return stringArray (← (← d.array?).mapM Document.string?)
  | _ => none

/-- The value that a JSON text writes. -/
def ofText? (s : String) : Option Value := do
  let d ← Document.ofText? s
  guard (d.depth ≤ Document.maxDepth)
  ofDocument? d

end QueryForest.Value
