set_option autoImplicit false

/-!
# Entities and their properties

An entity stands for one mapped table. A property is named by a word that belongs to its entity;
the mapping of the entity says which column the property is kept in.
-/

namespace QueryForest

/-- An entity. The key tells entities apart, also those that share a name or a table. -/
structure Entity where
  key : String
  name : String
  table : String
  deriving DecidableEq

/-- A property of an entity. -/
structure Property where
  entity : Entity
  name : String
  deriving DecidableEq

/-- A property with the name of its entity before it. -/
def Property.text (p : Property) : String := p.entity.name ++ "." ++ p.name

end QueryForest
