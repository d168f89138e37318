import QueryForest.Sql.Syntax
import QueryForest.Tree.Basic

set_option autoImplicit false

/-!
# Nodes as clauses

What a node contributes to the clauses of a statement. Everything that is kept by the name of a
column becomes a column of the alias of the node here.
-/

namespace QueryForest.Node

open Sql (Expr)

/-- A column of the node. -/
def columnExpr (n : Node) (column : String) : Expr := .column n.aliasName column

/-- A call of an aggregate function, rounded if it has a scale. -/
def aggregateExpr (n : Node) (a : Aggregate) : Expr :=
  let call := match a.column with
    | some c => Expr.call a.function.sql [n.columnExpr c.column] false a.distinct
    | none => Expr.call a.function.sql [] true false
  match a.scale with
  | some scale => .call "ROUND" [call, .literal (toString scale)] false false
  | none => call

/-- The alias of a selected column: the one that was asked for, or else its property where
properties name the results. -/
def outputAlias (n : Node) (c : ColumnRef) (aliasName : Option String) : Option String :=
  aliasName.or (if n.result.propertyAsAlias then c.property else none)

/-- An item of the results, unless its column is excluded. -/
def itemExpr? (n : Node) : SelectItem → Option Expr
  | .column c aliasName =>
    if c.column ∈ n.excluded then none
    else some ((n.columnExpr c.column).underAlias (n.outputAlias c aliasName))
  | .aggregate a => some ((n.aggregateExpr a).underAlias a.aliasName)

/-- The items that were asked for and are not excluded. -/
def selectExprs (n : Node) : List Expr := n.selected.filterMap n.itemExpr?

/-- All of some columns that are not excluded. -/
def columnExprs (n : Node) (columns : List Column) : List Expr :=
  (columns.filter fun c => !(c.name ∈ n.excluded)).map fun c =>
    (n.columnExpr c.name).underAlias (if n.result.propertyAsAlias then some c.property else none)

def groupExprs (n : Node) : List Expr := n.groups.map fun c => n.columnExpr c.column

def havingExprs (n : Node) : List Expr :=
  n.having.map fun h => .binary (n.aggregateExpr h.aggregate) h.comparison.operator (.value h.value)

def orderItems (n : Node) : List Sql.OrderItem :=
  n.order.map fun key =>
    ⟨n.columnExpr key.column.column, some key.options.direction, key.options.nulls,
      key.options.ignoreCase⟩

/-- Whether a node without a list of results of its own stands for all of its columns. A root that
selects aggregates alone does not. -/
def isImplicit (n : Node) (isRoot : Bool) : Bool :=
  !n.hasVisibleColumn && !(isRoot && n.hasAggregates)

/-- The predicate of a filter. A query in it is built by `nested`. An empty list holds no value.
-/
def filterExpr (nested : NodeRef → Except QueryError Sql.Select) (n : Node) :
    Filter → Except QueryError Expr
  | .compare c comparison v => .ok (.binary (n.columnExpr c.column) comparison.operator (.value v))
  | .inList _ [] negated => .ok (.literal (if negated then "1 = 1" else "1 = 0"))
  | .inList c values negated =>
    .ok (.inList (n.columnExpr c.column) (values.map Expr.value) negated)
  | .isNull c negated => .ok (.isNull (n.columnExpr c.column) negated)
  | .inQuery c query negated => do
    return .inSelect (n.columnExpr c.column) (← nested query) negated
  | .existsQuery query negated => do return .existsSelect (← nested query) negated
  | .outer c comparison outerAlias outerColumn =>
    .ok (.binary (n.columnExpr c.column) comparison.operator (.column outerAlias outerColumn))

/-- What the rows of a node are read from. -/
def tableSource (nested : NodeRef → Except QueryError Sql.Select) (n : Node) :
    Except QueryError Sql.TableSource :=
  match n.source with
  | .entity e => .ok (.table none e.table)
  | .query query _ => do return .select (← nested query)

/-- The condition of a join under a parent; nothing without on-conditions. -/
def onExpr (n : Node) (parentAlias : String) (conditions : List OnCondition) : Option Expr :=
  Expr.conjunction (conditions.map fun c =>
    .binary (.column parentAlias c.left) .eq (n.columnExpr c.right))

end QueryForest.Node
