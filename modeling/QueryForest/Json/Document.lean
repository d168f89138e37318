import QueryForest.Json.Numeral
import QueryForest.Text.Hex

set_option autoImplicit false

/-!
# JSON documents

A document is JSON text that has been taken apart and not yet interpreted: numbers are numerals,
and a string that names half of a surrogate pair by an escape has no text. Whoever reads a
document decides what to make of these, so a member that nobody asks for may hold a number of any
size.

Reading goes in two passes over the text. `Scan` cuts it into tokens character by character, and
`Reader` puts the tokens together, with the containers that are still open on a stack.
-/

namespace QueryForest

/-- A JSON text, taken apart. -/
inductive Document where
  | null
  | bool (b : Bool)
  | number (n : Numeral)
  | string (s : Option String)
  | array (items : List Document)
  | object (members : List (Option String × Document))

/-! ## Tokens -/

/-- A token of JSON text. -/
inductive JsonToken where
  | openBracket
  | closeBracket
  | openBrace
  | closeBrace
  | comma
  | colon
  | string (s : Option String)
  | scalar (d : Document)

/-- The text of the code units of a string: an escaped high surrogate followed by an escaped low
one is one character, and any other surrogate is none. -/
def textOfUnits? : List Nat → Option (List Char)
  | [] => some []
  | u :: rest =>
    if 0xd800 ≤ u ∧ u < 0xdc00 then
      match rest with
      | v :: rest =>
        if 0xdc00 ≤ v ∧ v < 0xe000 then
          (textOfUnits? rest).map (Char.ofNat (0x10000 + (u - 0xd800) * 0x400 + (v - 0xdc00)) :: ·)
        else none
      | [] => none
    else if 0xdc00 ≤ u ∧ u < 0xe000 then none
    else (textOfUnits? rest).map (Char.ofNat u :: ·)

/-- What the scanner is in the middle of, with the characters or code units read so far in
reverse. -/
inductive Scan where
  | between
  | word (cs : List Char)
  | numeral (cs : List Char)
  | string (units : List Nat)
  | escape (units : List Nat)
  | codeUnit (units : List Nat) (digits : List Char)

namespace Scan

def isNumeralChar (c : Char) : Bool := c.isDigit || c ∈ ['-', '+', '.', 'e', 'E']

/-- The token of a finished word. -/
def wordToken? (cs : List Char) : Option JsonToken :=
  match String.ofList cs.reverse with
  | "null" => some (.scalar .null)
  | "true" => some (.scalar (.bool true))
  | "false" => some (.scalar (.bool false))
  | _ => none

/-- The token of a finished numeral. -/
def numeralToken? (cs : List Char) : Option JsonToken :=
  (Numeral.ofChars? cs.reverse).map fun n => .scalar (.number n)

/-- A character outside of strings, when no word or numeral is open. -/
def start? (c : Char) : Option (Scan × List JsonToken) :=
  match c with
  | ' ' | '\n' | '\t' | '\r' => some (between, [])
  | '[' => some (between, [.openBracket])
  | ']' => some (between, [.closeBracket])
  | '{' => some (between, [.openBrace])
  | '}' => some (between, [.closeBrace])
  | ',' => some (between, [.comma])
  | ':' => some (between, [.colon])
  | '"' => some (string [], [])
  | c =>
    if isNumeralChar c then some (numeral [c], [])
    else if c.isLower then some (word [c], [])
    else none

/-- The character that a short escape stands for. -/
def escaped? : Char → Option Char
  | '"' => some '"'
  | '\\' => some '\\'
  | '/' => some '/'
  | 'b' => some '\x08'
  | 'f' => some '\x0c'
  | 'n' => some '\n'
  | 'r' => some '\r'
  | 't' => some '\t'
  | _ => none

/-- One character of the text: the next state and the tokens that the character finishes. Control
characters do not stand in strings. -/
def step? : Scan → Char → Option (Scan × List JsonToken)
  | between, c => start? c
  | word cs, c =>
    if c.isLower then some (word (c :: cs), [])
    else do
      let token ← wordToken? cs
      let (next, tokens) ← start? c
      return (next, token :: tokens)
  | numeral cs, c =>
    if isNumeralChar c then some (numeral (c :: cs), [])
    else do
      let token ← numeralToken? cs
      let (next, tokens) ← start? c
      return (next, token :: tokens)
  | string units, c =>
    if c = '"' then some (between, [.string ((textOfUnits? units.reverse).map String.ofList)])
    else if c = '\\' then some (escape units, [])
    else if c.toNat < 0x20 then none
    else some (string (c.toNat :: units), [])
  | escape units, c =>
    if c = 'u' then some (codeUnit units [], [])
    else (escaped? c).map fun e => (string (e.toNat :: units), [])
  | codeUnit units digits, c =>
    let digits := digits ++ [c]
    if (Text.hexDigit? c).isNone then none
    else if digits.length < 4 then some (codeUnit units digits, [])
    else (Text.hexNumber? digits).map fun u => (string (u :: units), [])

/-- The tokens of the text that follows a state. -/
def tokens? : Scan → List Char → Option (List JsonToken)
  | between, [] => some []
  | word cs, [] => (wordToken? cs).map ([·])
  | numeral cs, [] => (numeralToken? cs).map ([·])
  | string _, [] => none
  | escape _, [] => none
  | codeUnit _ _, [] => none
  | scan, c :: cs => do
    let (next, tokens) ← scan.step? c
    return tokens ++ (← next.tokens? cs)

end Scan

/-! ## Reading -/

/-- A container that is still open: what it holds so far, in reverse, and for an object the key
whose value is being read. -/
inductive OpenContainer where
  | array (items : List Document)
  | object (members : List (Option String × Document)) (key : Option String)

/-- What may follow at a place of the document, inside the containers that are open there. -/
inductive Reader where
  /-- A value. -/
  | value (outside : List OpenContainer)
  /-- The first item of an array, or its end. -/
  | firstItem (outside : List OpenContainer)
  /-- A comma after an item, or the end of the array. -/
  | afterItem (items : List Document) (outside : List OpenContainer)
  /-- The first key of an object, or its end. -/
  | firstKey (outside : List OpenContainer)
  /-- A key after a comma. -/
  | key (members : List (Option String × Document)) (outside : List OpenContainer)
  /-- The colon after a key. -/
  | colon (members : List (Option String × Document)) (key : Option String)
      (outside : List OpenContainer)
  /-- A comma after a member, or the end of the object. -/
  | afterMember (members : List (Option String × Document)) (outside : List OpenContainer)
  /-- Nothing: the document is complete. -/
  | finished (d : Document)

namespace Reader

/-- The place after a complete value. -/
def after (d : Document) : List OpenContainer → Reader
  | [] => finished d
  | .array items :: outside => afterItem (d :: items) outside
  | .object members k :: outside => afterMember ((k, d) :: members) outside

/-- A token where a value is expected. -/
def beginValue? (outside : List OpenContainer) : JsonToken → Option Reader
  | .openBracket => some (firstItem outside)
  | .openBrace => some (firstKey outside)
  | .string s => some (after (.string s) outside)
  | .scalar d => some (after d outside)
  | _ => none

def step? : Reader → JsonToken → Option Reader
  | value outside, token => beginValue? outside token
  | firstItem outside, .closeBracket => some (after (.array []) outside)
  | firstItem outside, token => beginValue? (.array [] :: outside) token
  | afterItem items outside, .comma => some (value (.array items :: outside))
  | afterItem items outside, .closeBracket => some (after (.array items.reverse) outside)
  | firstKey outside, .closeBrace => some (after (.object []) outside)
  | firstKey outside, .string s => some (colon [] s outside)
  | key members outside, .string s => some (colon members s outside)
  | colon members k outside, .colon => some (value (.object members k :: outside))
  | afterMember members outside, .comma => some (key members outside)
  | afterMember members outside, .closeBrace => some (after (.object members.reverse) outside)
  | _, _ => none

end Reader

namespace Document

/-- Takes a text apart; `none` when it is not JSON. -/
def ofText? (s : String) : Option Document := do
  let tokens ← Scan.between.tokens? s.toList
  match ← tokens.foldlM Reader.step? (Reader.value []) with
  | .finished d => some d
  | _ => none

mutual

/-- How deep containers nest in a document. -/
def depth : Document → Nat
  | .array items => itemsDepth items + 1
  | .object members => membersDepth members + 1
  | _ => 0

def itemsDepth : List Document → Nat
  | [] => 0
  | d :: ds => max d.depth (itemsDepth ds)

def membersDepth : List (Option String × Document) → Nat
  | [] => 0
  | (_, d) :: ms => max d.depth (membersDepth ms)

end

/-- Containers may nest this deep in what is read as a value. -/
def maxDepth : Nat := 127

mutual

/-- The value of a document. Every number must be in range and every string must have a text. -/
def json? : Document → Option Json
  | .null => some .null
  | .bool b => some (.bool b)
  | .number n => n.value?.map .number
  | .string s => s.map .string
  | .array items => (jsonItems? items).map .array
  | .object members => (jsonMembers? members).map .ofMembers

def jsonItems? : List Document → Option (List Json)
  | [] => some []
  | d :: ds => do return (← d.json?) :: (← jsonItems? ds)

def jsonMembers? : List (Option String × Document) → Option (List (String × Json))
  | [] => some []
  | (k, d) :: ms => do return (← k, ← d.json?) :: (← jsonMembers? ms)

end

/-- A choice among named alternatives: the name alone, or an object with the name as its only key
and what belongs to the alternative as its value. -/
def choice? : Document → Option (String × Option Document)
  | .string (some name) => some (name, none)
  | .object [(some name, content)] => some (name, some content)
  | _ => none

/-- A choice of an alternative to which nothing belongs. -/
def keyword? (d : Document) : Option String := do
  match ← d.choice? with
  | (name, none) => some name
  | (name, some .null) => some name
  | _ => none

def bool? : Document → Option Bool
  | .bool b => some b
  | _ => none

def string? : Document → Option String
  | .string s => s
  | _ => none

def array? : Document → Option (List Document)
  | .array items => some items
  | _ => none

def number? : Document → Option JsonNumber
  | .number n => n.value?
  | _ => none

end Document

/-- The JSON value that a text writes. -/
def Json.ofText? (s : String) : Option Json := do
  let d ← Document.ofText? s
  guard (d.depth ≤ Document.maxDepth)
  d.json?

end QueryForest
