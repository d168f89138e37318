import QueryForest.Mapping.Catalog

set_option autoImplicit false

/-!
# Runs of catalogs

What a caller does with a catalog: it begins, holds and lets go of providers, caches, resolvers and
columns, asks for the columns of properties and purges caches, in any order. Only what lives can be
used, and a new provider is kept at an address that is not in use. What a loader gives is part of
the request: a cache is locked while it loads, so that nothing else is done with it meanwhile.
-/

namespace QueryForest

namespace Catalog

/-- What is asked of a cache. -/
inductive Request where
  /-- The column of a property, loaded from the provider. -/
  | resolve (r : Resolver) (property : Property)
  /-- The column of a property, loaded in any other way. -/
  | load (r : Resolver) (property : Property) (loaded : Except QueryError Column)

def Request.resolver : Request → Resolver
  | resolve r _ => r
  | load r _ _ => r

def Request.property : Request → Property
  | resolve _ property => property
  | load _ property _ => property

/-- What a caller does with a catalog. -/
inductive Action where
  /-- Begins a provider at an address. -/
  | provider (name : String) (address : Address) (source : ColumnSource)
  | holdProvider (name : String) (p : ProviderId)
  | cache (name : String)
  | holdCache (name : String) (cache : CacheId)
  | resolver (name : String) (r : Resolver)
  /-- Makes a request, and holds the column that it gives if there is a name for it. -/
  | request (what : Request) (name : Option String)
  | hold (name : String) (column : ColumnId)
  /-- Lets go of the provider, the resolver and the column of a name. -/
  | release (name : String)
  | releaseCache (name : String)
  | purge (cache : CacheId)

/-- Whether the provider and the cache of a resolver live. -/
def serves (c : Catalog) (r : Resolver) : Bool :=
  c.isProviderAlive r.provider && c.isCacheAlive r.cache

/-- Whether an action uses only what lives, and no address that is in use. -/
def allows (c : Catalog) : Action → Bool
  | .provider _ address _ => !c.isInUse address
  | .holdProvider _ p => c.isProviderAlive p
  | .cache _ => true
  | .holdCache _ cache => c.isCacheAlive cache
  | .resolver _ r => c.serves r
  | .request what _ => c.serves what.resolver
  | .hold _ column => c.isColumnAlive column
  | .release _ => true
  | .releaseCache _ => true
  | .purge cache => c.isCacheAlive cache

/-- Whether a request has its column loaded. -/
def loads (c : Catalog) (r : Resolver) (property : Property) : Bool := (c.cached? r property).isNone

def answer (c : Catalog) : Request → Except QueryError ColumnId × Catalog
  | .resolve r property => c.resolve r property
  | .load r property loaded => c.load r property loaded

/-- Holds what a request has given. -/
def keep (c : Catalog) (name : Option String) : Except QueryError ColumnId → Catalog
  | .ok column => (name.map (c.hold · column)).getD c
  | .error _ => c

/-- The catalog after an action. -/
def after (c : Catalog) : Action → Catalog
  | .provider name address source => c.addProviderAt address name source
  | .holdProvider name p => c.holdProvider name p
  | .cache name => c.addCache name
  | .holdCache name cache => c.holdCache name cache
  | .resolver name r => c.addResolver name r
  | .request what name => (c.answer what).2.keep name (c.answer what).1
  | .hold name column => c.hold name column
  | .release name => c.release name
  | .releaseCache name => c.releaseCache name
  | .purge cache => (c.purge cache).2

/-- The catalog after some actions. -/
def run (c : Catalog) (actions : List Action) : Catalog := actions.foldl after c

/-- Whether actions use only what lives by then, and no address that is in use by then. -/
def admits (c : Catalog) : List Action → Bool
  | [] => true
  | a :: rest => c.allows a && (c.after a).admits rest

/-! ## What a run gives -/

/-- A column that a cache has given out for a property of a provider. -/
structure Handout where
  resolver : Resolver
  property : Property
  column : ColumnId
  deriving DecidableEq

/-- What the result of a request gives out. -/
def handed (r : Resolver) (property : Property) : Except QueryError ColumnId → List Handout
  | .ok column => [⟨r, property, column⟩]
  | .error _ => []

/-- What an action gives out. -/
def given (c : Catalog) : Action → List Handout
  | .request what _ => handed what.resolver what.property (c.answer what).1
  | _ => []

/-- What actions give out, in their order. -/
def handouts (c : Catalog) : List Action → List Handout
  | [] => []
  | a :: rest => c.given a ++ (c.after a).handouts rest

/-- What a request returns, and whether its column was loaded. -/
structure Answer where
  result : Except QueryError ColumnId
  loads : Bool

/-- The answer to the request that an action makes, if it makes one. -/
def answered (c : Catalog) : Action → List Answer
  | .request what _ => [⟨(c.answer what).1, c.loads what.resolver what.property⟩]
  | _ => []

/-- The answers to the requests among actions, in their order. -/
def answers (c : Catalog) : List Action → List Answer
  | [] => []
  | a :: rest => c.answered a ++ (c.after a).answers rest

end Catalog

end QueryForest
