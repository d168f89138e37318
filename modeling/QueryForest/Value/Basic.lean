import QueryForest.DataType
import QueryForest.Calendar.Timestamp
import QueryForest.Uuid

set_option autoImplicit false

/-!
# Values

The values that a statement binds to its parameters.
-/

namespace QueryForest

/-- A value bound to a parameter. -/
inductive Value where
  | int (n : Int64)
  | uint (n : UInt64)
  | float (x : Binary64)
  | string (s : String)
  | boolean (b : Bool)
  | json (j : Json)
  | uuid (u : Uuid)
  | bytes (b : List UInt8)
  | date (d : Date)
  | timestamp (t : Timestamp)
  | stringArray (items : List String)
  | null

namespace Value

def isNull : Value → Bool
  | null => true
  | _ => false

/-- The value of an option: nothing is `null`. -/
def ofOption (v : Option Value) : Value := v.getD null

/-- The type of column that holds the value. -/
def dataType : Value → DataType
  | int _ => .long
  | uint _ => .long
  | float _ => .double
  | string _ => .string
  | boolean _ => .boolean
  | json _ => .json
  | uuid _ => .uuid
  | bytes _ => .bytes
  | date _ => .date
  | timestamp _ => .timestamp
  | stringArray _ => .array .string
  | null => .null

end Value

end QueryForest
