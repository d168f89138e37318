import QueryForest.DataType
import QueryForest.Mapping.Entity
import QueryForest.Text.Repeated

set_option autoImplicit false

/-!
# Mappings

A registry holds the mapping of each entity that has been registered: its table and, property by
property, its columns. An entity is registered once, and no property is mapped twice, so looking a
property up and listing the columns of its entity always agree. A registry is one source of
columns among others.
-/

namespace QueryForest

/-- A column, with the property that is kept in it. -/
structure Column where
  property : String
  name : String
  type : DataType
  deriving DecidableEq

/-- The columns of an entity, in the order of their declaration. -/
structure Mapping where
  name : String
  table : String
  columns : List Column
  deriving DecidableEq

namespace Mapping

/-- The column of a property. -/
def column? (m : Mapping) (property : String) : Option Column :=
  m.columns.find? (·.property = property)

/-- Whether two names differ at most in the case of ASCII letters. -/
def sameIgnoringCase (a b : String) : Bool :=
  a.toList.map Char.toLower = b.toList.map Char.toLower

/-- The first column of a name, in letters of either case. -/
def byColumn? (m : Mapping) (column : String) : Option Column :=
  m.columns.find? fun c => sameIgnoringCase c.name column

/-- The first property that is mapped a second time. -/
def repeatedProperty? (m : Mapping) : Option String :=
  Text.firstRepeated? [] (m.columns.map (·.property))

def columnJson (c : Column) : String :=
  Json.objectText [("property", Json.quote c.property), ("column", Json.quote c.name),
    ("data_type", c.type.jsonText)]

/-- The JSON text of a mapping. -/
def jsonText (m : Mapping) : String :=
  Json.objectText [("name", Json.quote m.name), ("table", Json.quote m.table),
    ("columns", Json.arrayText (m.columns.map columnJson))]

end Mapping

/-- Why a mapping is refused. -/
inductive MappingError where
  | duplicateEntity (name : String)
  | duplicateProperty (entity property : String)
  deriving DecidableEq

def MappingError.message : MappingError → String
  | duplicateEntity name => "entity `" ++ name ++ "` is already registered"
  | duplicateProperty entity property =>
    "entity `" ++ entity ++ "` maps property `" ++ property ++ "` twice"

/-- The mappings of the registered entities, by the keys of the entities. -/
structure Registry where
  mappings : List (String × Mapping) := []
  deriving DecidableEq

namespace Registry

def empty : Registry := {}

def size (r : Registry) : Nat := r.mappings.length

/-- The mapping of an entity. -/
def mapping? (r : Registry) (entity : Entity) : Option Mapping := r.mappings.lookup entity.key

/-- Registers a mapping for an entity. -/
def insert (r : Registry) (entity : Entity) (mapping : Mapping) : Except MappingError Registry :=
  if (r.mapping? entity).isSome then .error (.duplicateEntity entity.name)
  else match mapping.repeatedProperty? with
    | some property => .error (.duplicateProperty mapping.name property)
    | none => .ok ⟨r.mappings ++ [(entity.key, mapping)]⟩

/-- Registers an entity under its own name and table. -/
def register (r : Registry) (entity : Entity) (columns : List Column) :
    Except MappingError Registry :=
  r.insert entity ⟨entity.name, entity.table, columns⟩

/-- The column of a property. -/
def column? (r : Registry) (p : Property) : Option Column :=
  (r.mapping? p.entity).bind (·.column? p.name)

/-- The columns of an entity, in the order of their declaration. -/
def columns? (r : Registry) (entity : Entity) : Option (List Column) :=
  (r.mapping? entity).map (·.columns)

end Registry

/-- What gives columns. It gives the same ones whenever it is asked. -/
structure ColumnSource where
  /-- The column of a property. -/
  column? : Property → Option Column
  /-- The columns of an entity, in the order of their declaration. -/
  columns? : Entity → Option (List Column)

/-- A registry as a source of columns. -/
def Registry.source (r : Registry) : ColumnSource := ⟨r.column?, r.columns?⟩

end QueryForest
