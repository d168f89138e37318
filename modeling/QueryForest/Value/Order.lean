import QueryForest.Value.Basic
import QueryForest.Json.Printer
import QueryForest.Number.Rounding

set_option autoImplicit false

/-!
# Equality, hashing and order of values

Three ways to set two values beside each other. `Value.equals` compares values of one kind,
`Value.hashData` is what a hash table may tell values apart by, and `Value.compare?` orders the
kinds that have an order, integers and floating point numbers also among each other.
-/

namespace QueryForest.Value

/-- Equality of values. Values of different kinds differ, and floating point numbers compare
numerically. -/
def equals : Value → Value → Bool
  | int a, int b => a == b
  | uint a, uint b => a == b
  | float x, float y => x.equals y
  | string a, string b => a == b
  | boolean a, boolean b => a == b
  | json a, json b => a.equals b
  | uuid a, uuid b => a == b
  | bytes a, bytes b => a == b
  | date a, date b => a == b
  | timestamp a, timestamp b => a == b
  | stringArray a, stringArray b => a == b
  | null, null => true
  | _, _ => false

/-- What the hash of a value is computed from. -/
inductive HashData where
  | int (n : Int64)
  | uint (n : UInt64)
  /-- A floating point number by its bits. -/
  | float (bits : UInt64)
  | string (s : String)
  | boolean (b : Bool)
  /-- A JSON value by its text. -/
  | json (text : String)
  | uuid (u : Uuid)
  | bytes (b : List UInt8)
  | date (d : Date)
  | timestamp (t : Timestamp)
  | stringArray (items : List String)
  | null
  deriving DecidableEq

/-- The data that the hash of a value is computed from. -/
def hashData : Value → HashData
  | int n => .int n
  | uint n => .uint n
  | float x => .float x.bits
  | string s => .string s
  | boolean b => .boolean b
  | json j => .json j.text
  | uuid u => .uuid u
  | bytes b => .bytes b
  | date d => .date d
  | timestamp t => .timestamp t
  | stringArray items => .stringArray items
  | null => .null

/-- The order of two values, where there is one. An integer meets a floating point number as the
floating point number nearest to it. -/
def compare? : Value → Value → Option Ordering
  | int a, int b => some (compare a.toInt b.toInt)
  | uint a, uint b => some (compare a.toNat b.toNat)
  | float x, float y => x.compare? y
  | int a, float y => (Binary64.ofInt a.toInt).compare? y
  | float x, int b => x.compare? (Binary64.ofInt b.toInt)
  | string a, string b => some (compare a b)
  | boolean a, boolean b => some (compare a b)
  | date a, date b => some (a.order b)
  | timestamp a, timestamp b => some (a.order b)
  | _, _ => none

end QueryForest.Value
