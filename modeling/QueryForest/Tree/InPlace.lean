import QueryForest.Tree.Basic

set_option autoImplicit false

/-!
# Changing trees in place

The steps in which the joins of a tree are added and attached, on a tree that is changed as they
go: what has been written when one of them fails stays written. A derived alias is counted before
it is registered, a join is registered before it is added, and it gets its parent before it is
linked. What comes of them is what `AliasTable.allocate`, `Tree.addJoin` and `Tree.attach` say.
-/

namespace QueryForest

namespace AliasTable

/-- Registers an alias for a node. -/
def registering (aliasName : String) (node : NodeId) : EStateM QueryError AliasTable Unit := do
  if aliasName ∈ (← get).names then throw (.duplicateAlias aliasName)
  modify (·.add aliasName node)

/-- Registers the alias that is given, or else a derived one. -/
def allocating (entityName : String) (explicit : Option String) (node : NodeId) :
    EStateM QueryError AliasTable String := do
  let aliasName ← match explicit with
    | some aliasName => pure aliasName
    | none => modifyGet (·.next entityName)
  registering aliasName node
  return aliasName

end AliasTable

namespace Tree

/-- Changes the aliases of a tree, also as far as a change goes that fails. -/
def onAliases {α : Type} (change : EStateM QueryError AliasTable α) : EStateM QueryError Tree α :=
  fun t => match change t.aliases with
    | .ok a aliases => .ok a { t with aliases }
    | .error e aliases => .error e { t with aliases }

/-- Adds a join that is not attached yet. -/
def addingJoin (reference : NodeId) (source : NodeSource) (kind : Sql.JoinKind)
    (explicit : Option String) : EStateM QueryError Tree NodeId := do
  let id := (← get).nodes.length
  let aliasName ← onAliases (AliasTable.allocating source.entityOf.name explicit id)
  modifyThe Tree fun t =>
    let joined : Node :=
      { source, aliasName, result := (t.node reference).result, join := some { kind, reference }
        origin := id }
    { t with nodes := t.nodes ++ [joined] }
  return id

/-- Checks that a join can be attached to a parent. -/
def checkAttach (join parent : NodeId) : EStateM QueryError Tree Unit := do
  let t ← get
  match (t.node join).join with
  | none => throw (.missingReference (t.aliasOf join) .notAJoin)
  | some edge =>
    match edge.parent with
    | some current => throw (.joinAlreadyAttached (t.aliasOf join) (t.aliasOf current))
    | none => if t.reaches join parent then throw (.cycle (t.aliasOf join))

/-- Attaches a join to a parent. -/
def attaching (join parent : NodeId) : EStateM QueryError Tree Unit := do
  checkAttach join parent
  let origin := (← get).origin parent
  modifyThe Tree (·.modify join fun n =>
    { n with join := n.join.map fun edge => { edge with parent := some parent } })
  modifyThe Tree fun t => { t with links := t.links ++ [(origin, join)] }

end Tree

end QueryForest
