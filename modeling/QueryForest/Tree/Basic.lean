import QueryForest.Graph.Preorder
import QueryForest.Graph.Search
import QueryForest.Tree.Node

set_option autoImplicit false

/-!
# Query trees

A tree holds the nodes of one query, its aliases, and the links between joins and the nodes that
they are attached to. The links are kept in the order in which they were made, which is the order
of the joins in the statement. The joins of a node are listed under its `origin`, so a node and
its branches have the same joins.
-/

namespace QueryForest

/-- A query tree. Its root is the node `0`. -/
structure Tree where
  nodes : List Node
  aliases : AliasTable
  /-- For each attached join, the origin of its parent and the join itself. -/
  links : List (NodeId × NodeId) := []
  /-- The mappings that properties are looked up in. -/
  mappings : Registry

namespace Tree

/-- The node at a place. -/
def node (t : Tree) (id : NodeId) : Node := t.nodes[id]?.getD default

def aliasOf (t : Tree) (id : NodeId) : String := (t.node id).aliasName

def origin (t : Tree) (id : NodeId) : NodeId := (t.node id).origin

/-- A tree of one node, the root. Its alias is the one given, or else a derived one that is not
among the reserved names. -/
def ofRoot (mappings : Registry) (entity : Entity) (explicit : Option String)
    (reserved : List String) (result : ResultSettings) (outer : Option NodeRef) : Tree :=
  let (aliasName, aliases) := AliasTable.forRoot entity.name explicit reserved 0
  let root : Node := { source := .entity entity, aliasName, result, origin := 0, outer }
  { nodes := [root], aliases, mappings }

/-- Changes the node at a place. -/
def modify (t : Tree) (id : NodeId) (f : Node → Node) : Tree :=
  { t with nodes := t.nodes.modify id f }

/-! ## Joins -/

/-- The joins listed under an origin, in the order of their attachment. -/
def children (t : Tree) (origin : NodeId) : List NodeId :=
  (t.links.filter (·.1 = origin)).map (·.2)

/-- The node at a place and the joins below it, each before those attached to it. -/
def walk (t : Tree) (root : NodeId) : List NodeId :=
  Graph.preorder (fun id => t.children (t.origin id)) t.nodes.length root

/-- Whether the origin of a node, or of a join below it, is the origin of another node. Every link
puts one origin onto the stack of the search at most, so that no more than one beyond the number of
links are taken from it. -/
def reaches (t : Tree) (id other : NodeId) : Bool :=
  Graph.search (fun origin => (t.children origin).map t.origin) (t.origin other)
    (t.links.length + 1) [] [t.origin id]

/-- Adds a join that is not attached yet. It takes over the result settings of the node that it is
created from. -/
def addJoin (t : Tree) (reference : NodeId) (source : NodeSource) (kind : Sql.JoinKind)
    (explicit : Option String) : Except QueryError (NodeId × Tree) := do
  let id := t.nodes.length
  let (aliasName, aliases) ← t.aliases.allocate source.entityOf.name explicit id
  let joined : Node :=
    { source, aliasName, result := (t.node reference).result, join := some { kind, reference }
      origin := id }
  return (id, { t with nodes := t.nodes ++ [joined], aliases })

/-- Adds a branch of a node. -/
def addBranch (t : Tree) (id : NodeId) : NodeId × Tree :=
  (t.nodes.length, { t with nodes := t.nodes ++ [(t.node id).branch] })

/-- Attaches a join to a parent. It can be attached once, and not below itself. -/
def attach (t : Tree) (join parent : NodeId) : Except QueryError Tree :=
  match (t.node join).join with
  | none => .error (.missingReference (t.aliasOf join) .notAJoin)
  | some edge =>
    match edge.parent with
    | some current => .error (.joinAlreadyAttached (t.aliasOf join) (t.aliasOf current))
    | none =>
      if t.reaches join parent then .error (.cycle (t.aliasOf join))
      else
        let t := t.modify join fun n => { n with join := some { edge with parent := some parent } }
        .ok { t with links := t.links ++ [(t.origin parent, join)] }

/-- The first join, in the order of the nodes, that is not attached or has no condition. -/
def incompleteJoin? (t : Tree) : Option QueryError :=
  t.nodes.findSome? fun n => do
    let gap ← (← n.join).gap?
    return .incompleteJoin n.aliasName gap

/-! ## Columns -/

/-- The column that a target names for an entity. -/
def resolve (t : Tree) (entity : Entity) : Target → Except QueryError ColumnRef
  | .column name => .ok ⟨name, none⟩
  | .property name =>
    match t.mappings.column? ⟨entity, name⟩ with
    | some column => .ok ⟨column.name, some name⟩
    | none => .error (.unresolvedProperty entity.name name)

/-- Every column of an entity. -/
def columnsOf (t : Tree) (entity : Entity) : Except QueryError (List Column) :=
  match t.mappings.columns? entity with
  | some columns => .ok columns
  | none => .error (.unresolvedProperty entity.name "*")

/-- The trees that the nodes of a tree take rows from or filter them by. -/
def nestedTrees (t : Tree) : List TreeId := t.nodes.flatMap fun n => n.queries.map (·.tree)

end Tree

end QueryForest
