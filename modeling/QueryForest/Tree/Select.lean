import QueryForest.Tree.Clauses

set_option autoImplicit false

/-!
# Trees as queries

The query of a tree, written from one of its nodes. The node comes first and the joins below it
follow in the order of the walk. Every one of them brings its table and its filters; the root and
the fetched joins bring the rest of what was asked for on them as well.
-/

namespace QueryForest.Tree

open Sql (Expr Select)

/-- What one node brings into a query. -/
structure Part where
  columns : List Expr
  groups : List Expr
  having : List Expr
  order : List Sql.OrderItem
  predicates : List Expr
  source : Sql.TableSource

/-- The results of a node: what was asked for, and the columns that it stands for otherwise. The
columns of a query in the place of a table are not known, so there is only a wildcard for them,
and not even that when it would bring back what is excluded. -/
def projection (t : Tree) (n : Node) (isRoot : Bool) : Except QueryError (List Expr) :=
  if n.isImplicit isRoot then
    match n.source with
    | .entity e => do return n.selectExprs ++ n.columnExprs (← t.columnsOf e)
    | .query _ _ =>
      .ok (n.selectExprs ++ if n.excluded.isEmpty then [.wildcard (some n.aliasName)] else [])
  else .ok n.selectExprs

/-- What a node brings into a query. -/
def part (nested : NodeRef → Except QueryError Select) (t : Tree) (n : Node) (isRoot : Bool) :
    Except QueryError Part :=
  let shown := isRoot || n.fetch
  do
    let columns ← if shown then t.projection n isRoot else pure []
    let predicates ← n.filters.mapM (n.filterExpr nested)
    let source ← n.tableSource nested
    return { columns
             groups := if shown then n.groupExprs else []
             having := if shown then n.havingExprs else []
             order := if shown then n.orderItems else []
             predicates, source }

/-- The join of a node to its parent. -/
def joinItem (t : Tree) (n : Node) (source : Sql.TableSource) : Except QueryError Sql.JoinItem :=
  match n.join with
  | none => .error (.incompleteJoin n.aliasName .notAJoin)
  | some edge =>
    match edge.parent with
    | none => .error (.missingReference n.aliasName .noParent)
    | some parent =>
      match n.onExpr (t.aliasOf parent) edge.conditions with
      | none => .error (.incompleteJoin n.aliasName .noCondition)
      | some on => .ok ⟨edge.kind, source, some n.aliasName, on⟩

/-- What a joined node brings into a query, and its join. -/
def joinedPart (nested : NodeRef → Except QueryError Select) (t : Tree) (id : NodeId) :
    Except QueryError (Part × Sql.JoinItem) := do
  let n := t.node id
  let part ← t.part nested n false
  return (part, ← t.joinItem n part.source)

/-- The query that a root and the joins below it make. -/
def assemble (root : Node) (rootPart : Part) (joined : List (Part × Sql.JoinItem)) : Select :=
  let parts := rootPart :: joined.map (·.1)
  { columns := parts.flatMap (·.columns)
    source := some ⟨rootPart.source, some root.aliasName⟩
    joins := joined.map (·.2)
    condition := Expr.conjunction (parts.flatMap (·.predicates))
    groups := parts.flatMap (·.groups)
    having := Expr.conjunction (parts.flatMap (·.having))
    order := parts.flatMap (·.order)
    limit := root.limit.map fun n => .value (.uint n)
    offset := root.offset.map fun n => .value (.uint n) }

/-- The query of a tree, written from one of its nodes. The queries inside it are built by
`nested`. -/
def select (nested : NodeRef → Except QueryError Select) (t : Tree) (root : NodeId) :
    Except QueryError Select :=
  match t.incompleteJoin?, Text.firstRepeated? [] ((t.walk root).map t.aliasOf) with
  | some error, _ => .error error
  | none, some aliasName => .error (.duplicateAlias aliasName)
  | none, none => do
    let n := t.node root
    let rootPart ← t.part nested n true
    let joined ← ((t.walk root).drop 1).mapM (t.joinedPart nested)
    let select := assemble n rootPart joined
    if select.columns.isEmpty then .error (.emptyProjection n.aliasName) else return select

end QueryForest.Tree
