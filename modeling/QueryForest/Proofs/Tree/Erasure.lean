import QueryForest.Proofs.Sql.Erasure
import QueryForest.Proofs.Tree.Parts

set_option autoImplicit false

/-!
# Trees without their values

The values of a tree are those that its nodes compare with, and the limits and offsets. `Tree.erased`
has one and the same in the place of each of them. The query of an erased tree is the query of the
tree itself without its values, or it fails in the same way (`select_erased`): none of the steps that
lead to a query looks at a value.
-/

namespace QueryForest

open Sql (Expr Select)

/-! ## Nodes -/

def Having.erased (h : Having) : Having := { h with value := h.value.erased }

/-- A filter without its values. A list keeps its length. -/
def Filter.erased : Filter → Filter
  | compare c comparison v => compare c comparison v.erased
  | inList c values negated => inList c (values.map Value.erased) negated
  | other => other

/-- A node without its values. -/
def Node.erased (n : Node) : Node :=
  { n with
    having := n.having.map Having.erased
    filters := n.filters.map Filter.erased
    limit := n.limit.map fun _ => 0
    offset := n.offset.map fun _ => 0 }

/-- A tree without its values. -/
def Tree.erased (t : Tree) : Tree := { t with nodes := t.nodes.map Node.erased }

namespace Node

variable (n : Node)

@[simp] theorem source_erased : n.erased.source = n.source := rfl
@[simp] theorem aliasName_erased : n.erased.aliasName = n.aliasName := rfl
@[simp] theorem excluded_erased : n.erased.excluded = n.excluded := rfl
@[simp] theorem fetch_erased : n.erased.fetch = n.fetch := rfl
@[simp] theorem join_erased : n.erased.join = n.join := rfl
@[simp] theorem origin_erased : n.erased.origin = n.origin := rfl
@[simp] theorem outer_erased : n.erased.outer = n.outer := rfl
@[simp] theorem isImplicit_erased (isRoot : Bool) : n.erased.isImplicit isRoot = n.isImplicit isRoot := rfl

@[simp] theorem queries_erased : n.erased.queries = n.queries := by
  show _ ++ (n.filters.map Filter.erased).filterMap _ = _ ++ n.filters.filterMap _
  rw [List.filterMap_map]
  congr 2
  funext p
  cases p <;> rfl

@[simp] theorem columnExpr_erased (column : String) :
    (n.columnExpr column).erased = n.columnExpr column := rfl

@[simp] theorem aggregateExpr_erased (a : Aggregate) :
    (n.aggregateExpr a).erased = n.aggregateExpr a := by
  unfold aggregateExpr
  cases a.column <;> cases a.scale <;> rfl

theorem underAlias_erased (e : Expr) (aliasName : Option String) :
    (e.underAlias aliasName).erased = e.erased.underAlias aliasName := by
  cases aliasName <;> rfl

/-- There are no values in the results of a node. -/
theorem selectExprs_erased : n.selectExprs.map Expr.erased = n.erased.selectExprs := by
  show (n.selected.filterMap n.itemExpr?).map Expr.erased = n.selected.filterMap n.itemExpr?
  rw [List.map_filterMap]
  refine List.filterMap_congr fun item _ => ?_
  cases item with
  | column c aliasName =>
      simp only [itemExpr?]
      split
      · rfl
      · rw [Option.map_some, underAlias_erased, columnExpr_erased]
  | aggregate a => rw [itemExpr?, Option.map_some, underAlias_erased, aggregateExpr_erased]

theorem columnExprs_erased (columns : List Column) :
    (n.columnExprs columns).map Expr.erased = n.erased.columnExprs columns := by
  show ((columns.filter _).map _).map Expr.erased = (columns.filter _).map _
  rw [List.map_map]
  refine List.map_congr_left fun c _ => ?_
  rw [Function.comp_apply, underAlias_erased]
  rfl

theorem groupExprs_erased : n.groupExprs.map Expr.erased = n.erased.groupExprs := by
  show (n.groups.map _).map Expr.erased = n.groups.map _
  rw [List.map_map]
  rfl

theorem havingExprs_erased : n.havingExprs.map Expr.erased = n.erased.havingExprs := by
  show (n.having.map _).map Expr.erased = (n.having.map Having.erased).map _
  rw [List.map_map, List.map_map]
  refine List.map_congr_left fun h _ => ?_
  simp only [Function.comp_apply, Expr.erased, aggregateExpr_erased]
  rfl

theorem orderItems_erased : n.orderItems.map Sql.OrderItem.erased = n.erased.orderItems := by
  show (n.order.map _).map Sql.OrderItem.erased = n.order.map _
  rw [List.map_map]
  rfl

theorem onExpr_erased (parentAlias : String) (conditions : List OnCondition) :
    (n.onExpr parentAlias conditions).map Expr.erased = n.erased.onExpr parentAlias conditions := by
  unfold onExpr
  rw [← Expr.conjunction_erased, List.map_map]
  rfl

variable {nested nested' : NodeRef → Except QueryError Select}
  (inside : ∀ q, nested' q = (nested q).map Select.erased)

include inside

theorem filterExpr_erased (p : Filter) :
    n.erased.filterExpr nested' p.erased = (n.filterExpr nested p).map Expr.erased := by
  cases p with
  | compare c comparison v => rfl
  | inList c values negated =>
      cases values with
      | nil => rfl
      | cons v values => simp [Filter.erased, filterExpr, Except.map, Expr.erased]; rfl
  | isNull c negated => rfl
  | inQuery c query negated =>
      show (nested' query >>= _) = (nested query >>= _).map Expr.erased
      rw [inside]
      cases nested query <;> rfl
  | existsQuery query negated =>
      show (nested' query >>= _) = (nested query >>= _).map Expr.erased
      rw [inside]
      cases nested query <;> rfl
  | outer c comparison outerAlias outerColumn => rfl

theorem tableSource_erased :
    n.erased.tableSource nested' = (n.tableSource nested).map Sql.TableSource.erased := by
  unfold tableSource
  rw [source_erased]
  cases n.source with
  | entity e => rfl
  | query query e =>
      show (nested' query >>= _) = (nested query >>= _).map Sql.TableSource.erased
      rw [inside]
      cases nested query <;> rfl

end Node

namespace Tree

/-! ## What an erased tree keeps -/

variable (t : Tree)

@[simp] theorem length_erased : t.erased.nodes.length = t.nodes.length := List.length_map _

@[simp] theorem node_erased (id : NodeId) : t.erased.node id = (t.node id).erased := by
  unfold node erased
  rw [List.getElem?_map]
  cases t.nodes[id]? <;> rfl

@[simp] theorem aliasOf_erased (id : NodeId) : t.erased.aliasOf id = t.aliasOf id := by
  rw [aliasOf, node_erased, Node.aliasName_erased, aliasOf]

@[simp] theorem origin_erased (id : NodeId) : t.erased.origin id = t.origin id := by
  rw [origin, node_erased, Node.origin_erased, origin]

theorem walk_erased (root : NodeId) : t.erased.walk root = t.walk root := by
  unfold walk
  simp only [length_erased, origin_erased]
  rfl

theorem reaches_erased (id other : NodeId) : t.erased.reaches id other = t.reaches id other := by
  unfold reaches
  simp only [origin_erased, funext t.origin_erased]
  rfl

theorem incompleteJoin?_erased : t.erased.incompleteJoin? = t.incompleteJoin? := by
  show (t.nodes.map Node.erased).findSome? _ = t.nodes.findSome? _
  rw [List.findSome?_map]
  rfl

/-- An erased tree nests what the tree nests: a value is no query. -/
theorem nestedTrees_erased : t.erased.nestedTrees = t.nestedTrees := by
  show (t.nodes.map Node.erased).flatMap _ = t.nodes.flatMap _
  rw [List.flatMap_map]
  simp only [Node.queries_erased]

/-! ## The query of an erased tree -/

def Part.erased (p : Part) : Part where
  columns := p.columns.map Expr.erased
  groups := p.groups.map Expr.erased
  having := p.having.map Expr.erased
  order := p.order.map Sql.OrderItem.erased
  predicates := p.predicates.map Expr.erased
  source := p.source.erased

theorem projection_erased (n : Node) (isRoot : Bool) :
    t.erased.projection n.erased isRoot = (t.projection n isRoot).map (List.map Expr.erased) := by
  unfold projection
  rw [Node.isImplicit_erased, Node.source_erased, ← n.selectExprs_erased]
  split
  · cases n.source with
    | entity e =>
        have same : t.erased.columnsOf e = (t.columnsOf e).map id := by
          rw [Except.map_id]
          rfl
        refine Outcome.bind_map same fun columns => ?_
        rw [id_eq, ← n.columnExprs_erased, ← List.map_append]
        rfl
    | query query e =>
        rw [Node.excluded_erased, Node.aliasName_erased, Except.map, List.map_append]
        cases n.excluded.isEmpty <;> rfl
  · rfl

theorem joinItem_erased (n : Node) (source : Sql.TableSource) :
    t.erased.joinItem n.erased source.erased = (t.joinItem n source).map Sql.JoinItem.erased := by
  unfold joinItem
  rw [Node.join_erased]
  cases n.join with
  | none => rfl
  | some edge =>
      dsimp only
      cases edge.parent with
      | none => rfl
      | some parent =>
          dsimp only
          rw [aliasOf_erased, ← n.onExpr_erased]
          cases n.onExpr (t.aliasOf parent) edge.conditions <;> rfl

theorem assemble_erased (root : Node) (rootPart : Part) (joined : List (Part × Sql.JoinItem)) :
    assemble root.erased rootPart.erased
        (joined.map fun pair => (pair.1.erased, pair.2.erased))
      = (assemble root rootPart joined).erased := by
  have parts : (rootPart.erased :: (joined.map fun pair => (pair.1.erased, pair.2.erased)).map (·.1))
      = (rootPart :: joined.map (·.1)).map Part.erased := by
    simp [Function.comp_def]
  unfold assemble
  rw [parts, Select.erased]
  simp [List.map_flatMap, List.flatMap_map, Part.erased, ← Expr.conjunction_erased,
    Function.comp_def, Node.erased]

section Nested

variable {nested nested' : NodeRef → Except QueryError Select}
  (inside : ∀ q, nested' q = (nested q).map Select.erased)

include inside

theorem part_erased (n : Node) (isRoot : Bool) :
    t.erased.part nested' n.erased isRoot = (t.part nested n isRoot).map Part.erased := by
  have columns : t.erased.shownColumns n.erased isRoot
      = (t.shownColumns n isRoot).map (List.map Expr.erased) := by
    unfold shownColumns
    rw [Node.fetch_erased, projection_erased]
    split <;> rfl
  rw [part_eq, part_eq]
  refine Outcome.bind_map columns fun columns => ?_
  refine Outcome.bind_map (Outcome.mapM_map fun p _ => n.filterExpr_erased inside p) fun _ => ?_
  refine Outcome.bind_map (n.tableSource_erased inside) fun source => ?_
  rw [Node.fetch_erased, ← n.groupExprs_erased, ← n.havingExprs_erased, ← n.orderItems_erased]
  cases isRoot || n.fetch <;> rfl

theorem joinedPart_erased (id : NodeId) :
    t.erased.joinedPart nested' id
      = (t.joinedPart nested id).map fun pair => (pair.1.erased, pair.2.erased) := by
  unfold joinedPart
  rw [node_erased]
  refine Outcome.bind_map (t.part_erased inside (t.node id) false) fun part => ?_
  exact Outcome.bind_map (t.joinItem_erased (t.node id) part.source) fun _ => rfl

/-- **The query of an erased tree is the erased query of the tree.** -/
theorem select_erased (root : NodeId) :
    t.erased.select nested' root = (t.select nested root).map Select.erased := by
  have aliases : (t.walk root).map t.erased.aliasOf = (t.walk root).map t.aliasOf := by simp
  unfold select
  rw [incompleteJoin?_erased, walk_erased, aliases, node_erased]
  cases t.incompleteJoin? with
  | some error => rfl
  | none =>
      cases Text.firstRepeated? [] ((t.walk root).map t.aliasOf) with
      | some aliasName => rfl
      | none =>
          dsimp only
          refine Outcome.bind_map (t.part_erased inside (t.node root) true) fun rootPart => ?_
          have joined := Outcome.mapM_map (m := id) (l := (t.walk root).drop 1) fun v _ =>
            t.joinedPart_erased inside v
          rw [List.map_id] at joined
          refine Outcome.bind_map joined fun joined => ?_
          rw [assemble_erased, Select.columns_erased, List.isEmpty_map]
          split <;> rfl

end Nested

end Tree

end QueryForest
