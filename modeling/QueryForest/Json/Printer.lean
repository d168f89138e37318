import QueryForest.Json.Basic
import QueryForest.Number.Layout
import QueryForest.Text.Hex

set_option autoImplicit false

/-!
# JSON text

The compact text of JSON values, and of arrays and objects whose parts are given as text. Strings
escape the quotation mark, the backslash and the control characters below the blank; every other
character stands for itself.
-/

namespace QueryForest.Json

/-- The characters that write one character inside a string. -/
def escapeChar (c : Char) : List Char :=
  match c with
  | '"' => ['\\', '"']
  | '\\' => ['\\', '\\']
  | '\n' => ['\\', 'n']
  | '\r' => ['\\', 'r']
  | '\t' => ['\\', 't']
  | '\x08' => ['\\', 'b']
  | '\x0c' => ['\\', 'f']
  | c => if c.toNat < 0x20 then '\\' :: 'u' :: Text.hexDigits 4 c.toNat else [c]

/-- A string in quotation marks. -/
def quote (s : String) : String :=
  String.ofList ('"' :: s.toList.flatMap escapeChar ++ ['"'])

/-- An array of items given as text. -/
def arrayText (items : List String) : String :=
  "[" ++ String.intercalate "," items ++ "]"

/-- An object of members given as text, in the order given. -/
def objectText (members : List (String × String)) : String :=
  "\x7b" ++ String.intercalate "," (members.map fun (k, v) => quote k ++ ":" ++ v) ++ "\x7d"

/-- The text of a floating point number. What is not finite has no number in JSON and is `null`.
-/
def floatText (x : Binary64) : String :=
  if x.isFinite then NumberLayout.json.write x else "null"

def numberText : JsonNumber → String
  | .unsigned n => toString n.toNat
  | .negative n => toString n.toInt
  | .float x => floatText x

/-- The text of a string that may be missing. -/
def optionText : Option String → String
  | none => "null"
  | some s => quote s

mutual

/-- The compact text of a value. -/
def text : Json → String
  | .null => "null"
  | .bool b => toString b
  | .number n => numberText n
  | .string s => quote s
  | .array items => arrayText (itemTexts items)
  | .object members => objectText (memberTexts members)

def itemTexts : List Json → List String
  | [] => []
  | j :: js => j.text :: itemTexts js

def memberTexts : List (String × Json) → List (String × String)
  | [] => []
  | (k, j) :: ms => (k, j.text) :: memberTexts ms

end

end QueryForest.Json
