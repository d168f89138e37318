import QueryForest.Forest.Build

set_option autoImplicit false

/-!
# Calls as data

What can be asked of a forest, as values. A `Change` is asked of one node and changes nothing but
this node; a `Call` makes a node, attaches a join, or asks a node for a change. Runs of the
program are lists of calls.
-/

namespace QueryForest

open Sql (AggregateFunction Comparison Direction JoinKind)

/-- What can be asked of one node. -/
inductive Change where
  | select (target : Target) (aliasName : Option String)
  | selectAll (targets : List Target)
  | exclude (target : Target)
  | excludeAll (targets : List Target)
  | aggregate (function : AggregateFunction) (target : Option Target)
      (options : Build.AggregateOptions)
  | group (target : Target)
  | groupAll (targets : List Target)
  | having (function : AggregateFunction) (target : Option Target) (comparison : Comparison)
      (value : Value)
  | sort (target : Target) (options : SortOptions)
  | sortAll (targets : List Target) (direction : Direction)
  | compare (target : Target) (comparison : Comparison) (value : Value)
  | inList (target : Target) (values : List Value) (negated : Bool)
  | isNull (target : Target) (negated : Bool)
  | inQuery (target : Target) (query : NodeRef) (negated : Bool)
  | existsQuery (query : NodeRef) (negated : Bool)
  | correlate (target : Target) (comparison : Comparison) (outerEntity : Entity)
      (outerTarget : Target)
  | on (property : String)
  | onWith (left right : Target)
  | fetch (enabled : Bool)
  | resultType (name : String)
  | mapType (name : String)
  | mapKey (target : Target)
  | propertyAsAlias (enabled : Bool)
  | limit (n : UInt64)
  | offset (n : UInt64)

/-- Performs a change on a node. -/
def Change.perform (r : NodeRef) : Change → Build Unit
  | select target aliasName => Build.select r target aliasName
  | selectAll targets => Build.selectAll r targets
  | exclude target => Build.exclude r target
  | excludeAll targets => Build.excludeAll r targets
  | aggregate function target options => Build.aggregate r function target options
  | group target => Build.group r target
  | groupAll targets => Build.groupAll r targets
  | having function target comparison value => Build.having r function target comparison value
  | sort target options => Build.sort r target options
  | sortAll targets direction => Build.sortAll r targets direction
  | compare target comparison value => Build.compare r target comparison value
  | inList target values negated => Build.inList r target values negated
  | isNull target negated => Build.isNull r target negated
  | inQuery target query negated => Build.inQuery r target query negated
  | existsQuery query negated => Build.existsQuery r query negated
  | correlate target comparison outerEntity outerTarget =>
    Build.correlate r target comparison outerEntity outerTarget
  | on property => Build.on r property
  | onWith left right => Build.onWith r left right
  | fetch enabled => Build.fetch r enabled
  | resultType name => Build.resultType r name
  | mapType name => Build.mapType r name
  | mapKey target => Build.mapKey r target
  | propertyAsAlias enabled => Build.propertyAsAlias r enabled
  | limit n => Build.limit r n
  | offset n => Build.offset r n

/-- What can be asked of a forest. -/
inductive Call where
  | root (mappings : Registry) (entity : Entity) (aliasName : Option String)
      (result : ResultSettings)
  | subQuery (outer : NodeRef) (entity : Entity) (aliasName : Option String)
  | branch (node : NodeRef)
  | join (reference : NodeRef) (entity : Entity) (kind : JoinKind) (aliasName : Option String)
  | joinQuery (reference query : NodeRef) (kind : JoinKind) (aliasName : Option String)
  /-- Attaches a join to the node that it was created from. -/
  | attach (node : NodeRef)
  | attachTo (node parent : NodeRef)
  | change (node : NodeRef) (what : Change)

/-- Performs a call. Gives the node that the call has made, or else the one that it is asked of.
-/
def Call.perform : Call → Build NodeRef
  | root mappings entity aliasName result => Build.root mappings entity aliasName result
  | subQuery outer entity aliasName => Build.subQuery outer entity aliasName
  | branch node => Build.branch node
  | join reference entity kind aliasName => Build.join reference entity kind aliasName
  | joinQuery reference query kind aliasName => Build.joinQuery reference query kind aliasName
  | attach node => do
    Build.attach node
    return node
  | attachTo node parent => do
    Build.attachTo node parent
    return node
  | change node what => do
    what.perform node
    return node

end QueryForest
