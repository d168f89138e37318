import QueryForest.Mapping.Registry

set_option autoImplicit false

/-!
# Column caches

A cache remembers which column a provider has given for a property. It finds an entry by the
address of the provider and the property, and keeps neither the provider nor the column alive: an
entry counts only as long as both are.
-/

namespace QueryForest

/-- A provider of columns. No two providers ever have the same identity. -/
abbrev ProviderId := Nat

/-- A copy of a column that has been handed out. Each copy has an identity of its own. -/
abbrev ColumnId := Nat

/-- Where a provider is kept. An address can be used again once nothing refers to it. -/
abbrev Address := Nat

/-- What an entry of a cache is found by. -/
structure CacheKey where
  address : Address
  property : Property
  deriving DecidableEq

/-- The provider that a column came from, and the column. -/
structure CacheEntry where
  provider : ProviderId
  column : ColumnId
  deriving DecidableEq

/-- A cache of columns. -/
structure ColumnCache where
  entries : List (CacheKey × CacheEntry) := []
  deriving DecidableEq

namespace ColumnCache

def empty : ColumnCache := {}

/-- The number of entries, also of those that no longer count. -/
def size (c : ColumnCache) : Nat := c.entries.length

def isEmpty (c : ColumnCache) : Bool := c.entries.isEmpty

def added? (c : ColumnCache) (key : CacheKey) : Option CacheEntry := c.entries.lookup key

/-- Puts an entry into its place, over the one that was there. -/
def put (c : ColumnCache) (key : CacheKey) (entry : CacheEntry) : ColumnCache :=
  ⟨(key, entry) :: c.entries.filter (·.1 ≠ key)⟩

/-- Removes the entries that do not count. -/
def purge (c : ColumnCache) (counts : CacheEntry → Bool) : ColumnCache :=
  ⟨c.entries.filter fun (_, entry) => counts entry⟩

end ColumnCache

end QueryForest
