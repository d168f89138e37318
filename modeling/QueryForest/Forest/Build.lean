import QueryForest.Forest.Basic
import QueryForest.Tree.InPlace

set_option autoImplicit false

/-!
# Building forests

The calls that build query trees. A call either succeeds or fails with a `QueryError`; whatever it
has changed before it fails stays changed, down to the counters of the aliases. Calls for one column
or one node do not fail any more once they have changed something, so only the calls for several
columns can leave part of their work behind.
-/

namespace QueryForest

/-- A call on a forest. -/
abbrev Build (α : Type) := EStateM QueryError Forest α

namespace Build

open Sql (AggregateFunction Comparison JoinKind)

/-- Fails with the error of a result, or gives its value. -/
def ofExcept {α : Type} : Except QueryError α → Build α
  | .ok a => pure a
  | .error e => throw e

/-- The tree of a reference. -/
def tree (r : NodeRef) : Build Tree := do
  match (← get).tree? r.tree with
  | some t => pure t
  | none => throw (.foreignNode "")

def node (r : NodeRef) : Build Node := return (← tree r).node r.node

/-- Puts a changed tree back into its place. -/
def setTree (id : TreeId) (t : Tree) : Build Unit := modify fun f => f.setTree id t

/-- Changes the tree of a reference in place. What has been written stays when the change fails. -/
def write {α : Type} (r : NodeRef) (change : EStateM QueryError Tree α) : Build α := do
  match change (← tree r) with
  | .ok a t =>
    setTree r.tree t
    return a
  | .error e t =>
    setTree r.tree t
    throw e

/-- Changes a node. -/
def update (r : NodeRef) (change : Node → Node) : Build Unit := do
  setTree r.tree ((← tree r).modify r.node change)

/-- The column that a target names for an entity, with the mappings of the tree of `r`. -/
def resolveFor (r : NodeRef) (entity : Entity) (target : Target) : Build ColumnRef := do
  ofExcept ((← tree r).resolve entity target)

/-- The column of a node that a target names. -/
def resolve (r : NodeRef) (target : Target) : Build ColumnRef := do
  resolveFor r (← node r).entity target

/-! ## Roots, branches and joins -/

/-- Begins a tree. -/
def root (mappings : Registry) (entity : Entity) (aliasName : Option String)
    (result : ResultSettings) : Build NodeRef :=
  modifyGet fun f => f.addTree (Tree.ofRoot mappings entity aliasName [] result none)

/-- Begins a tree for a query that is going to be nested in the one around `outer`. It takes over
the result settings of `outer`, and its derived alias avoids the aliases around it. -/
def subQuery (outer : NodeRef) (entity : Entity) (aliasName : Option String) : Build NodeRef := do
  let t ← tree outer
  let result := (t.node outer.node).result
  modifyGet fun f =>
    f.addTree (Tree.ofRoot t.mappings entity aliasName t.aliases.names result (some outer))

/-- Adds a branch of a node. -/
def branch (r : NodeRef) : Build NodeRef := do
  let (id, t) := (← tree r).addBranch r.node
  setTree r.tree t
  return ⟨r.tree, id⟩

/-- Checks that a query can be nested in the tree of `host`: a tree never contains itself. -/
def nest (host query : NodeRef) : Build Unit := do
  if (← get).contains query.tree host.tree then throw (.cycle (← node query).aliasName)

/-- Adds a join, created from `reference`. -/
def addJoin (reference : NodeRef) (source : NodeSource) (kind : JoinKind)
    (aliasName : Option String) : Build NodeRef := do
  let id ← write reference (Tree.addingJoin reference.node source kind aliasName)
  return ⟨reference.tree, id⟩

/-- Joins an entity. -/
def join (reference : NodeRef) (entity : Entity) (kind : JoinKind) (aliasName : Option String) :
    Build NodeRef :=
  addJoin reference (.entity entity) kind aliasName

/-- Joins the results of a query. -/
def joinQuery (reference query : NodeRef) (kind : JoinKind) (aliasName : Option String) :
    Build NodeRef := do
  nest reference query
  addJoin reference (.query query (← node query).entity) kind aliasName

/-- Attaches a join to a parent in its own tree. -/
def attachTo (r parent : NodeRef) : Build Unit := do
  if r.tree ≠ parent.tree then throw (.foreignNode (← node parent).aliasName)
  write r (Tree.attaching r.node parent.node)

/-- The node that a join was created from, or the node itself if it is no join. -/
def reference (r : NodeRef) : Build NodeRef := do
  return ⟨r.tree, match (← node r).join with
    | some edge => edge.reference
    | none => r.node⟩

/-- Attaches a join to the node that it was created from. -/
def attach (r : NodeRef) : Build Unit := do attachTo r (← reference r)

/-- Joins on a column of one name on both sides, named by a property of the joined entity. -/
def on (r : NodeRef) (property : String) : Build Unit := do
  let c ← resolve r (.property property)
  update r (·.addCondition ⟨c.column, c.column⟩)

/-- Joins on a column of the entity that the join was created from and a column of the joined one.
-/
def onWith (r : NodeRef) (left right : Target) : Build Unit := do
  let left ← resolveFor r (← node (← reference r)).entity left
  let right ← resolve r right
  update r (·.addCondition ⟨left.column, right.column⟩)

/-- Says whether the columns of a join belong to the result. -/
def fetch (r : NodeRef) (enabled : Bool) : Build Unit := update r ({ · with fetch := enabled })

/-! ## Results -/

def select (r : NodeRef) (target : Target) (aliasName : Option String) : Build Unit := do
  let c ← resolve r target
  update r (·.select (.column c aliasName))

def selectAll (r : NodeRef) (targets : List Target) : Build Unit :=
  targets.forM fun target => select r target none

def exclude (r : NodeRef) (target : Target) : Build Unit := do
  let c ← resolve r target
  update r (·.exclude c.column)

def excludeAll (r : NodeRef) (targets : List Target) : Build Unit := targets.forM (exclude r)

/-- What can be said about an aggregate beside its column. -/
structure AggregateOptions where
  aliasName : Option String := none
  scale : Option Nat := none
  distinct : Bool := false
  deriving DecidableEq

/-- An aggregate with the options that have an effect on its function. There is nothing distinct
to count without a column. -/
def makeAggregate (function : AggregateFunction) (column : Option ColumnRef)
    (options : AggregateOptions) : Aggregate :=
  { function, column
    aliasName := options.aliasName
    scale := if function.takesScale then options.scale else none
    distinct := options.distinct && function.takesDistinct && column.isSome }

/-- The column of a target that may be missing. -/
def resolveOption (r : NodeRef) : Option Target → Build (Option ColumnRef)
  | none => pure none
  | some target => do return some (← resolve r target)

def aggregate (r : NodeRef) (function : AggregateFunction) (target : Option Target)
    (options : AggregateOptions) : Build Unit := do
  let column ← resolveOption r target
  update r (·.addAggregate (makeAggregate function column options))

/-! ## Groups and order -/

def group (r : NodeRef) (target : Target) : Build Unit := do
  let c ← resolve r target
  update r (·.group c)

def groupAll (r : NodeRef) (targets : List Target) : Build Unit := targets.forM (group r)

def having (r : NodeRef) (function : AggregateFunction) (target : Option Target)
    (comparison : Comparison) (value : Value) : Build Unit := do
  let column ← resolveOption r target
  update r (·.addHaving ⟨makeAggregate function column {}, comparison, value⟩)

def sort (r : NodeRef) (target : Target) (options : SortOptions) : Build Unit := do
  let c ← resolve r target
  update r (·.sort ⟨c, options⟩)

def sortAll (r : NodeRef) (targets : List Target) (direction : Sql.Direction) : Build Unit :=
  targets.forM fun target => sort r target { direction }

/-! ## Filters -/

def compare (r : NodeRef) (target : Target) (comparison : Comparison) (value : Value) :
    Build Unit := do
  let c ← resolve r target
  update r (·.filter (.compare c comparison value))

def inList (r : NodeRef) (target : Target) (values : List Value) (negated : Bool) : Build Unit := do
  let c ← resolve r target
  update r (·.filter (.inList c values negated))

def isNull (r : NodeRef) (target : Target) (negated : Bool) : Build Unit := do
  let c ← resolve r target
  update r (·.filter (.isNull c negated))

def inQuery (r : NodeRef) (target : Target) (query : NodeRef) (negated : Bool) : Build Unit := do
  let c ← resolve r target
  nest r query
  update r (·.filter (.inQuery c query negated))

def existsQuery (r query : NodeRef) (negated : Bool) : Build Unit := do
  nest r query
  update r (·.filter (.existsQuery query negated))

/-- Compares a column with one of the node from which the query was begun, as long as the tree of
that node lives. The column of the enclosing query is looked up like those of this one. -/
def correlate (r : NodeRef) (target : Target) (comparison : Comparison) (outerEntity : Entity)
    (outerTarget : Target) : Build Unit := do
  let c ← resolve r target
  let n ← node r
  let f ← get
  match n.outer.filter fun outer => f.isAlive outer.tree with
  | none => throw (.missingReference n.aliasName .noEnclosingQuery)
  | some outer =>
    let outerColumn ← resolveFor r outerEntity outerTarget
    update r (·.filter (.outer c comparison (f.node outer).aliasName outerColumn.column))

/-! ## Result settings and pagination -/

def resultType (r : NodeRef) (name : String) : Build Unit :=
  update r fun n => { n with result := { n.result with resultType := some name } }

def mapType (r : NodeRef) (name : String) : Build Unit :=
  update r fun n => { n with result := { n.result with mapType := some name } }

def mapKey (r : NodeRef) (target : Target) : Build Unit := do
  let c ← resolve r target
  update r (·.setMapKey c)

def propertyAsAlias (r : NodeRef) (enabled : Bool) : Build Unit :=
  update r fun n => { n with result := { n.result with propertyAsAlias := enabled } }

def limit (r : NodeRef) (n : UInt64) : Build Unit := update r ({ · with limit := some n })

def offset (r : NodeRef) (n : UInt64) : Build Unit := update r ({ · with offset := some n })

end Build

end QueryForest
