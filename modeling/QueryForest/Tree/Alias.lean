import QueryForest.Error

set_option autoImplicit false

/-!
# Aliases

Every node of a query tree goes by an alias. An alias that nobody chose is derived from the name
of the entity: its first ASCII letter in lower case, and from the second use of the letter on a
number behind it. Names that are taken already, and names that are reserved for somebody else, are
passed over.
-/

namespace QueryForest

/-- The place of a node in its tree. -/
abbrev NodeId := Nat

/-- The aliases of a tree. -/
structure AliasTable where
  /-- The aliases in use, in the order of their registration, with the nodes that go by them. -/
  owners : List (String × NodeId) := []
  /-- For each letter, how many numbers have been tried with it. -/
  counters : List (Char × Nat) := []
  /-- Names that are not derived although nobody uses them here. -/
  reserved : List String := []
  deriving DecidableEq

namespace AliasTable

/-- The table of a tree without nodes. -/
def empty : AliasTable := {}

def size (t : AliasTable) : Nat := t.owners.length

/-- The aliases in use. -/
def names (t : AliasTable) : List String := t.owners.map (·.1)

/-- The node that goes by an alias. -/
def owner? (t : AliasTable) (aliasName : String) : Option NodeId := t.owners.lookup aliasName

/-- Whether a derived alias has to pass over a name. -/
def isTaken (t : AliasTable) (aliasName : String) : Bool :=
  aliasName ∈ t.names || aliasName ∈ t.reserved

/-- The letter of the aliases of an entity. -/
def token (entityName : String) : Char :=
  match entityName.toList.find? Char.isAlpha with
  | some c => c.toLower
  | none => 't'

/-- The alias that a letter and a number make; the number `0` is not written. -/
def numbered (token : Char) (n : Nat) : String :=
  if n = 0 then String.ofList [token] else String.ofList [token] ++ toString n

/-- The number that is tried next with a letter. -/
def counter (t : AliasTable) (token : Char) : Nat := (t.counters.lookup token).getD 0

/-- Sets the number that is tried next with a letter. -/
def setCounter (t : AliasTable) (token : Char) (n : Nat) : AliasTable :=
  { t with counters := (token, n) :: t.counters.filter (·.1 ≠ token) }

/-- The least number from the counter on whose alias is not taken. Among one more numbers than
there are names to pass over, one is free. -/
def nextNumber (t : AliasTable) (token : Char) : Nat :=
  let start := t.counter token
  let offsets := List.range (t.owners.length + t.reserved.length + 1)
  start + (offsets.find? fun i => !t.isTaken (numbered token (start + i))).getD 0

/-- The next derived alias for an entity. It is counted but not registered. -/
def next (t : AliasTable) (entityName : String) : String × AliasTable :=
  let token := token entityName
  let n := t.nextNumber token
  (numbered token n, t.setCounter token (n + 1))

/-- Adds an alias that is known to be free. -/
def add (t : AliasTable) (aliasName : String) (node : NodeId) : AliasTable :=
  { t with owners := t.owners ++ [(aliasName, node)] }

/-- Registers an alias for a node. -/
def register (t : AliasTable) (aliasName : String) (node : NodeId) : Except QueryError AliasTable :=
  if aliasName ∈ t.names then .error (.duplicateAlias aliasName) else .ok (t.add aliasName node)

/-- Registers the alias that is given, or else a derived one. -/
def allocate (t : AliasTable) (entityName : String) (explicit : Option String) (node : NodeId) :
    Except QueryError (String × AliasTable) :=
  let (aliasName, t) := match explicit with
    | some aliasName => (aliasName, t)
    | none => t.next entityName
  (t.register aliasName node).map fun t => (aliasName, t)

/-- Reserves names. -/
def reserve (t : AliasTable) (names : List String) : AliasTable :=
  { t with reserved := t.reserved ++ names }

/-- The table of a new tree with some names reserved, and the alias of its root. -/
def forRoot (entityName : String) (explicit : Option String) (reserved : List String)
    (root : NodeId) : String × AliasTable :=
  let t := empty.reserve reserved
  let (aliasName, t) := match explicit with
    | some aliasName => (aliasName, t)
    | none => t.next entityName
  (aliasName, t.add aliasName root)

end AliasTable

end QueryForest
