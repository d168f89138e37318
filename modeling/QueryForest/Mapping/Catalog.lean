import QueryForest.Error
import QueryForest.Mapping.Cache

set_option autoImplicit false

/-!
# Catalogs

A catalog keeps providers of columns, caches of what they have given, and resolvers, each of which
looks properties up at one provider by way of one cache. Callers hold providers, caches, resolvers
and columns by name. A provider or a cache lives as long as it is held or a resolver uses it, a
column as long as it is held.
-/

namespace QueryForest

/-- The place of a cache in its catalog. -/
abbrev CacheId := Nat

/-- A provider of columns. It counts how often a column has been looked up. -/
structure Provider where
  name : String
  address : Address
  source : ColumnSource
  lookups : Nat := 0

/-- Looks properties up at a provider by way of a cache. -/
structure Resolver where
  provider : ProviderId
  cache : CacheId
  deriving DecidableEq

/-- Providers, caches, resolvers and columns. The providers and the columns are all that there
have ever been, in the order in which they began; the cache `0` is shared by all resolvers that
were given none. -/
structure Catalog where
  providers : List Provider := []
  columns : List Column := []
  caches : List ColumnCache := [.empty]
  /-- The providers that are held. -/
  providerHandles : List (String × ProviderId) := []
  /-- The caches that are held. -/
  cacheNames : List (String × CacheId) := []
  resolvers : List (String × Resolver) := []
  /-- The columns that are held. -/
  columnHandles : List (String × ColumnId) := []

namespace Catalog

def empty : Catalog := {}

/-- Puts something under a name, in place of what had the name. -/
def put {α : Type} (name : String) (a : α) (held : List (String × α)) : List (String × α) :=
  (name, a) :: held.filter (·.1 ≠ name)

/-- Removes what has a name. -/
def remove {α : Type} (name : String) (held : List (String × α)) : List (String × α) :=
  held.filter (·.1 ≠ name)

/-! ## Life -/

def isProviderAlive (c : Catalog) (p : ProviderId) : Bool :=
  c.providerHandles.any (·.2 = p) || c.resolvers.any (·.2.provider = p)

/-- Whether a cache lives. The shared one always does. -/
def isCacheAlive (c : Catalog) (cache : CacheId) : Bool :=
  cache = 0 || c.cacheNames.any (·.2 = cache) || c.resolvers.any (·.2.cache = cache)

def isColumnAlive (c : Catalog) (column : ColumnId) : Bool := c.columnHandles.any (·.2 = column)

/-- Whether an entry of a cache still counts. -/
def isLive (c : Catalog) (entry : CacheEntry) : Bool :=
  c.isProviderAlive entry.provider && c.isColumnAlive entry.column

/-- The providers that the entries of a cache remember. -/
def rememberedIn (c : Catalog) (cache : CacheId) : List ProviderId :=
  (c.caches[cache]?.getD .empty).entries.map (·.2.provider)

/-- The providers that the entries of the living caches remember. -/
def remembered (c : Catalog) : List ProviderId :=
  ((List.range c.caches.length).filter c.isCacheAlive).flatMap c.rememberedIn

/-- Whether a provider lives or is remembered by a cache. Its address is not used again before. -/
def isReferred (c : Catalog) (p : ProviderId) : Bool :=
  c.isProviderAlive p || p ∈ c.remembered

def isInUse (c : Catalog) (address : Address) : Bool :=
  (List.range c.providers.length).any fun p =>
    c.isReferred p && (c.providers[p]?.map (·.address)) == some address

/-- The least address that is not in use. -/
def freshAddress (c : Catalog) : Address :=
  ((List.range c.providers.length).find? fun a => !c.isInUse a).getD c.providers.length

/-! ## Beginning and ending -/

/-- Begins a provider at an address. -/
def addProviderAt (c : Catalog) (address : Address) (name : String) (source : ColumnSource) :
    Catalog :=
  { c with
    providers := c.providers ++ [{ name, address, source }]
    providerHandles := put name c.providers.length c.providerHandles }

/-- Begins a provider of the columns of a registry, at the least address that is not in use. -/
def addProvider (c : Catalog) (name : String) (mappings : Registry) : Catalog :=
  c.addProviderAt c.freshAddress name mappings.source

/-- Holds a provider that lives. -/
def holdProvider (c : Catalog) (name : String) (p : ProviderId) : Catalog :=
  { c with providerHandles := put name p c.providerHandles }

def addCache (c : Catalog) (name : String) : Catalog :=
  { c with
    caches := c.caches ++ [.empty]
    cacheNames := put name c.caches.length c.cacheNames }

/-- Holds a cache that lives. -/
def holdCache (c : Catalog) (name : String) (cache : CacheId) : Catalog :=
  { c with cacheNames := put name cache c.cacheNames }

def addResolver (c : Catalog) (name : String) (resolver : Resolver) : Catalog :=
  { c with resolvers := put name resolver c.resolvers }

/-- Holds a column. -/
def hold (c : Catalog) (name : String) (column : ColumnId) : Catalog :=
  { c with columnHandles := put name column c.columnHandles }

/-- Whether a provider, a resolver or a column is held by a name. -/
def holds (c : Catalog) (name : String) : Bool :=
  c.providerHandles.any (·.1 = name) || c.resolvers.any (·.1 = name) ||
    c.columnHandles.any (·.1 = name)

/-- Lets go of the provider, the resolver and the column of a name. -/
def release (c : Catalog) (name : String) : Catalog :=
  { c with
    providerHandles := remove name c.providerHandles
    resolvers := remove name c.resolvers
    columnHandles := remove name c.columnHandles }

/-- Lets go of the cache of a name. -/
def releaseCache (c : Catalog) (name : String) : Catalog :=
  { c with cacheNames := remove name c.cacheNames }

/-! ## Looking up -/

/-- The column that a cache has for a property of a provider. -/
def cached? (c : Catalog) (r : Resolver) (property : Property) : Option ColumnId := do
  let provider ← c.providers[r.provider]?
  let cache ← c.caches[r.cache]?
  let entry ← cache.added? ⟨provider.address, property⟩
  guard (c.isLive entry)
  return entry.column

/-- Hands out a new copy of a column, which the cache remembers. -/
def handOut (c : Catalog) (r : Resolver) (property : Property) (column : Column) :
    ColumnId × Catalog :=
  let id := c.columns.length
  let address := (c.providers[r.provider]?.map (·.address)).getD 0
  (id, { c with
    columns := c.columns ++ [column]
    caches := c.caches.modify r.cache (·.put ⟨address, property⟩ ⟨r.provider, id⟩) })

/-- The column that the cache has, or else the one that is loaded. When loading fails nothing is
remembered. -/
def load (c : Catalog) (r : Resolver) (property : Property) (loaded : Except QueryError Column) :
    Except QueryError ColumnId × Catalog :=
  match c.cached? r property, loaded with
  | some id, _ => (.ok id, c)
  | none, .ok column =>
    let (id, c) := c.handOut r property column
    (.ok id, c)
  | none, .error e => (.error e, c)

/-- The column that a provider gives for a property. -/
def lookup (c : Catalog) (p : ProviderId) (property : Property) : Except QueryError Column :=
  match c.providers[p]?.bind (·.source.column? property) with
  | some column => .ok column
  | none => .error (.unresolvedProperty property.entity.name property.name)

/-- Counts a lookup at a provider. -/
def countLookup (c : Catalog) (p : ProviderId) : Catalog :=
  { c with providers := c.providers.modify p fun q => { q with lookups := q.lookups + 1 } }

/-- The column of a property, looked up at the provider only if the cache does not have it. -/
def resolve (c : Catalog) (r : Resolver) (property : Property) :
    Except QueryError ColumnId × Catalog :=
  let c := if (c.cached? r property).isSome then c else c.countLookup r.provider
  c.load r property (c.lookup r.provider property)

/-- The columns of an entity, without the cache. -/
def columnsOf (c : Catalog) (p : ProviderId) (entity : Entity) : Except QueryError (List Column) :=
  match c.providers[p]?.bind (·.source.columns? entity) with
  | some columns => .ok columns
  | none => .error (.unresolvedProperty entity.name "*")

/-- Removes the entries of a cache that no longer count. Gives their number. -/
def purge (c : Catalog) (cache : CacheId) : Nat × Catalog :=
  let before := (c.caches[cache]?.getD .empty)
  let after := before.purge c.isLive
  (before.size - after.size, { c with caches := c.caches.set cache after })

/-- For each name of a provider, how often columns have been looked up at the last provider of
this name, whether or not it lives. -/
def lookupCounts (c : Catalog) : List (String × Nat) :=
  c.providers.foldl (fun counts p => put p.name p.lookups counts) []

end Catalog

end QueryForest
