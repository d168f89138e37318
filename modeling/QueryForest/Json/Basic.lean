import QueryForest.Number.Binary64

set_option autoImplicit false

/-!
# JSON values

The members of an object are kept in ascending order of their keys, each key once.
`Json.ofMembers` brings members into this form; of two members with one key it keeps the later
one.
-/

namespace QueryForest

/-- A number is an integer of 64 bits, with or without a sign, or else a floating point number. -/
inductive JsonNumber where
  | unsigned (n : UInt64)
  | negative (n : Int64)
  | float (x : Binary64)
  deriving DecidableEq

/-- A JSON value. -/
inductive Json where
  | null
  | bool (b : Bool)
  | number (n : JsonNumber)
  | string (s : String)
  | array (items : List Json)
  | object (members : List (String × Json))

namespace JsonNumber

/-- Numbers of different kinds are never equal, and floating point numbers compare numerically. -/
def equals : JsonNumber → JsonNumber → Bool
  | unsigned a, unsigned b => a == b
  | negative a, negative b => a == b
  | float x, float y => x.equals y
  | _, _ => false

end JsonNumber

namespace Json

/-- Puts a member in its place, in front of the first greater key or over its own. -/
def insertMember (key : String) (value : Json) : List (String × Json) → List (String × Json)
  | [] => [(key, value)]
  | (k, v) :: rest =>
    if key < k then (key, value) :: (k, v) :: rest
    else if key = k then (key, value) :: rest
    else (k, v) :: insertMember key value rest

/-- The object of a list of members. -/
def ofMembers (members : List (String × Json)) : Json :=
  object (members.foldl (fun acc (k, v) => insertMember k v acc) [])

mutual

/-- Equality of values: structural, with numbers compared by `JsonNumber.equals`. -/
def equals : Json → Json → Bool
  | null, null => true
  | bool a, bool b => a == b
  | number a, number b => a.equals b
  | string a, string b => a == b
  | array a, array b => equalItems a b
  | object a, object b => equalMembers a b
  | _, _ => false

def equalItems : List Json → List Json → Bool
  | [], [] => true
  | a :: as, b :: bs => a.equals b && equalItems as bs
  | _, _ => false

def equalMembers : List (String × Json) → List (String × Json) → Bool
  | [], [] => true
  | (k, a) :: as, (l, b) :: bs => k == l && a.equals b && equalMembers as bs
  | _, _ => false

end

end Json

end QueryForest
