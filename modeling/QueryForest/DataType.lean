import QueryForest.Json.Document
import QueryForest.Json.Printer

set_option autoImplicit false

/-!
# Data types of columns

The logical types that a mapping gives its columns, with their names in SQL and their form in
JSON.
-/

namespace QueryForest

/-- The type of a column. -/
inductive DataType where
  | short
  | int
  | long
  | float
  | double
  | decimal
  | boolean
  | char
  | varChar
  | string
  | date
  | time
  | timestamp
  | uuid
  | json
  | bytes
  | enum
  /-- An array whose items have a known type. -/
  | array (item : DataType)
  /-- An array of items of any type. -/
  | anyArray
  | null
  /-- A type known by its name only. -/
  | custom (name : String)
  deriving DecidableEq

namespace DataType

/-- Whether values of the type can be summed and rounded. -/
def isNumeric : DataType → Bool
  | short | int | long | float | double | decimal => true
  | _ => false

def isTextual : DataType → Bool
  | char | varChar | string | enum => true
  | _ => false

/-- The name of the type in SQL. -/
def sqlName : DataType → String
  | short => "SMALLINT"
  | int => "INT"
  | long => "BIGINT"
  | float => "FLOAT"
  | double => "DOUBLE"
  | decimal => "DECIMAL"
  | boolean => "BOOLEAN"
  | char => "CHAR"
  | varChar => "VARCHAR"
  | string => "TEXT"
  | date => "DATE"
  | time => "TIME"
  | timestamp => "TIMESTAMP"
  | uuid => "UUID"
  | json => "JSON"
  | bytes => "BLOB"
  | enum => "ENUM"
  | array item => item.sqlName ++ "[]"
  | anyArray => "ARRAY"
  | null => "NULL"
  | custom name => name

/-- The types that JSON names by a word. -/
def words : List (String × DataType) :=
  [("Short", short), ("Int", int), ("Long", long), ("Float", float), ("Double", double),
    ("Decimal", decimal), ("Boolean", boolean), ("Char", char), ("VarChar", varChar),
    ("String", string), ("Date", date), ("Time", time), ("Timestamp", timestamp), ("Uuid", uuid),
    ("Json", json), ("Bytes", bytes), ("Enum", enum), ("Null", null)]

/-- The type that a word names. -/
def ofWord? (word : String) : Option DataType := words.lookup word

/-- The JSON text of a type. -/
def jsonText : DataType → String
  | array item => Json.objectText [("Array", item.jsonText)]
  | anyArray => Json.objectText [("Array", "null")]
  | custom name => Json.objectText [("Custom", Json.quote name)]
  | t => Json.optionText ((words.find? (·.2 == t)).map (·.1))

/-- The type that a document names. -/
def ofDocument? : Document → Option DataType
  | .string (some word) => ofWord? word
  | .object [(some "Array", .null)] => some anyArray
  | .object [(some "Array", item)] => (ofDocument? item).map array
  | .object [(some "Custom", .string (some name))] => some (custom name)
  | .object [(some word, .null)] => ofWord? word
  | _ => none

/-- The type that a JSON text names. -/
def ofText? (s : String) : Option DataType := do
  let d ← Document.ofText? s
  guard (d.depth ≤ Document.maxDepth)
  ofDocument? d

end DataType

end QueryForest
