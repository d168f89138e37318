import QueryForest.Mapping.Registry
import QueryForest.Sql.Words
import QueryForest.Tree.Alias
import QueryForest.Value.Basic

set_option autoImplicit false

/-!
# Nodes of a query tree

A node stands for one table of a statement, or for a query in the place of a table. It collects
what calls have asked for on this table. Its columns are kept by their names alone; the alias of
the node is put before them when the statement is written.
-/

namespace QueryForest

/-- The place of a tree in its forest. -/
abbrev TreeId := Nat

/-- A node, named by its tree and its place there. -/
structure NodeRef where
  tree : TreeId
  node : NodeId
  deriving DecidableEq

/-- How a call names a column: by a property of the entity at hand, or by its own name. -/
inductive Target where
  | property (name : String)
  | column (name : String)
  deriving DecidableEq

/-- A column of a node, with the property by which it was named. -/
structure ColumnRef where
  column : String
  property : Option String
  deriving DecidableEq

/-- An aggregate of a column, or of all rows when there is no column. -/
structure Aggregate where
  function : Sql.AggregateFunction
  column : Option ColumnRef
  aliasName : Option String
  /-- The number of places to which the result is rounded. -/
  scale : Option Nat
  distinct : Bool
  deriving DecidableEq

/-- An item of the list of results. -/
inductive SelectItem where
  | column (column : ColumnRef) (aliasName : Option String)
  | aggregate (a : Aggregate)
  deriving DecidableEq

/-- A condition on an aggregate. -/
structure Having where
  aggregate : Aggregate
  comparison : Sql.Comparison
  value : Value

/-- How to sort by a column. -/
structure SortOptions where
  direction : Sql.Direction
  ignoreCase : Bool := false
  nulls : Sql.NullsPlace := .unspecified
  deriving DecidableEq

/-- A column to sort by. -/
structure SortKey where
  column : ColumnRef
  options : SortOptions
  deriving DecidableEq

/-- A predicate on the rows of a node. -/
inductive Filter where
  | compare (column : ColumnRef) (comparison : Sql.Comparison) (value : Value)
  | inList (column : ColumnRef) (values : List Value) (negated : Bool)
  | isNull (column : ColumnRef) (negated : Bool)
  /-- The column is among the results of another query. -/
  | inQuery (column : ColumnRef) (query : NodeRef) (negated : Bool)
  /-- Another query has results. -/
  | existsQuery (query : NodeRef) (negated : Bool)
  /-- A comparison with a column of the enclosing query. -/
  | outer (column : ColumnRef) (comparison : Sql.Comparison) (outerAlias outerColumn : String)

/-- What a node takes its rows from. A query in the place of a table has the entity of its own
root, by whose properties its results can be named. -/
inductive NodeSource where
  | entity (e : Entity)
  | query (query : NodeRef) (e : Entity)

/-- The entity whose properties name the columns of a node. -/
def NodeSource.entityOf : NodeSource → Entity
  | entity e => e
  | query _ e => e

/-- A condition of a join: a column of the parent equals a column of the joined node. -/
structure OnCondition where
  left : String
  right : String
  deriving DecidableEq

/-- How a joined node is linked. -/
structure JoinEdge where
  kind : Sql.JoinKind
  /-- The node that the join was created from. -/
  reference : NodeId
  /-- The node that the join is attached to, once it is. -/
  parent : Option NodeId := none
  conditions : List OnCondition := []
  deriving DecidableEq

/-- How far a join has come. -/
inductive JoinState where
  | created
  | conditioned
  | attached
  deriving DecidableEq

def JoinEdge.state (e : JoinEdge) : JoinState :=
  if e.parent.isSome then .attached else if e.conditions.isEmpty then .created else .conditioned

/-- What a join still lacks, if anything. -/
def JoinEdge.gap? (e : JoinEdge) : Option JoinGap :=
  if e.parent.isNone then some .neverAttached
  else if e.conditions.isEmpty then some .noCondition
  else none

/-- What the caller wants to be done with the rows. -/
structure ResultSettings where
  resultType : Option String := none
  mapKey : Option String := none
  mapType : Option String := none
  /-- Whether columns named by a property have its name as their alias. -/
  propertyAsAlias : Bool := false
  deriving DecidableEq

/-- A table of a statement, with what has been asked for on it. -/
structure Node where
  source : NodeSource
  aliasName : String
  selected : List SelectItem := []
  /-- The names of columns that are not selected, whatever else says so. -/
  excluded : List String := []
  groups : List ColumnRef := []
  having : List Having := []
  filters : List Filter := []
  order : List SortKey := []
  result : ResultSettings := {}
  /-- Whether the columns of a join belong to the result. -/
  fetch : Bool := false
  limit : Option UInt64 := none
  offset : Option UInt64 := none
  join : Option JoinEdge := none
  /-- The node under whose name the joins of this one are listed: itself, or the node of which it
  is a branch. -/
  origin : NodeId
  /-- The node of the enclosing query from which this query was begun. -/
  outer : Option NodeRef := none

instance : Inhabited Node where
  default := { source := .entity ⟨"", "", ""⟩, aliasName := "", origin := 0 }

namespace Node

def entity (n : Node) : Entity := n.source.entityOf

def joinState (n : Node) : Option JoinState := n.join.map (·.state)

/-- A copy of a node that is no join itself and lists the joins of the node as its own. -/
def branch (n : Node) : Node := { n with join := none }

/-- Adds an item to the results, unless it is there already. -/
def select (n : Node) (item : SelectItem) : Node :=
  if item ∈ n.selected then n else { n with selected := n.selected ++ [item] }

/-- Adds an aggregate to the results. -/
def addAggregate (n : Node) (a : Aggregate) : Node :=
  { n with selected := n.selected ++ [.aggregate a] }

def exclude (n : Node) (column : String) : Node :=
  if column ∈ n.excluded then n else { n with excluded := n.excluded ++ [column] }

def group (n : Node) (column : ColumnRef) : Node := { n with groups := n.groups ++ [column] }

def addHaving (n : Node) (h : Having) : Node := { n with having := n.having ++ [h] }

def sort (n : Node) (key : SortKey) : Node := { n with order := n.order ++ [key] }

def filter (n : Node) (f : Filter) : Node := { n with filters := n.filters ++ [f] }

/-- Adds a condition to a join. -/
def addCondition (n : Node) (c : OnCondition) : Node :=
  { n with join := n.join.map fun e => { e with conditions := e.conditions ++ [c] } }

/-- Sets the key that rows are mapped by: the property that names the column where properties name
the results, and the column otherwise. -/
def setMapKey (n : Node) (c : ColumnRef) : Node :=
  let key := if n.result.propertyAsAlias then c.property.getD c.column else c.column
  { n with result := { n.result with mapKey := some key } }

/-- Whether a column is selected and not excluded. -/
def hasVisibleColumn (n : Node) : Bool :=
  n.selected.any fun
    | .column c _ => !(c.column ∈ n.excluded)
    | .aggregate _ => false

def hasAggregates (n : Node) : Bool :=
  n.selected.any fun
    | .column _ _ => false
    | .aggregate _ => true

/-- The queries that a node takes its rows from or filters them by. -/
def queries (n : Node) : List NodeRef :=
  (match n.source with
    | .entity _ => []
    | .query q _ => [q]) ++
  n.filters.filterMap fun
    | .inQuery _ q _ => some q
    | .existsQuery q _ => some q
    | _ => none

end Node

end QueryForest
