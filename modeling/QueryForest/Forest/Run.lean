import QueryForest.Forest.Call

set_option autoImplicit false

/-!
# Runs

What a caller does with a forest: calls, each of which may fail, and taking and letting go of
handles. Every node that a caller can name was made by an earlier call, so that a run only names
nodes that there are.
-/

namespace QueryForest

/-- The queries that a change nests. -/
def Change.queries : Change → List NodeRef
  | inQuery _ query _ => [query]
  | existsQuery query _ => [query]
  | _ => []

/-- The nodes that a call names. -/
def Call.nodes : Call → List NodeRef
  | root _ _ _ _ => []
  | subQuery outer _ _ => [outer]
  | branch node => [node]
  | join reference _ _ _ => [reference]
  | joinQuery reference query _ _ => [reference, query]
  | attach node => [node]
  | attachTo node parent => [node, parent]
  | change node what => node :: what.queries

/-- What a caller does with a forest. -/
inductive Action where
  | call (what : Call)
  /-- Holds a node by a name. -/
  | hold (name : String) (node : NodeRef)
  /-- Lets a handle go. -/
  | release (name : String)

/-- The nodes that an action names. -/
def Action.nodes : Action → List NodeRef
  | call what => what.nodes
  | hold _ node => [node]
  | release _ => []

namespace Forest

/-- Whether there is a node. -/
def hasNode (f : Forest) (r : NodeRef) : Bool := (f.tree? r.tree).any (r.node < ·.nodes.length)

/-- The forest after an action. A call that fails leaves behind what it did before it failed. -/
def after (f : Forest) : Action → Forest
  | .call what =>
    match what.perform f with
    | .ok _ f' => f'
    | .error _ f' => f'
  | .hold name r => f.hold name r
  | .release name => f.release name

/-- The forest after some actions. -/
def run (f : Forest) (actions : List Action) : Forest := actions.foldl after f

/-- Whether actions only name nodes that there are by then. -/
def admits (f : Forest) : List Action → Bool
  | [] => true
  | a :: rest => a.nodes.all f.hasNode && (f.after a).admits rest

/-- The forests that callers can make. -/
def Reachable (f : Forest) : Prop := ∃ actions, empty.admits actions ∧ empty.run actions = f

/-- The node that a join was created from, or the node itself if it is no join. -/
def reference (f : Forest) (r : NodeRef) : NodeRef :=
  ⟨r.tree, ((f.node r).join.map (·.reference)).getD r.node⟩

/-- Whether a call succeeds. -/
def accepts (f : Forest) (what : Call) : Bool :=
  match what.perform f with
  | .ok _ _ => true
  | .error _ _ => false

/-- The join that an action attaches, with its parent. -/
def attachment? (f : Forest) : Action → Option (NodeRef × NodeRef)
  | .call (.attach join) =>
    if f.accepts (.attach join) then some (join, f.reference join) else none
  | .call (.attachTo join parent) =>
    if f.accepts (.attachTo join parent) then some (join, parent) else none
  | _ => none

/-- The joins that actions attach, one after the other, each with its parent. -/
def attachments (f : Forest) : List Action → List (NodeRef × NodeRef)
  | [] => []
  | a :: rest => (f.attachment? a).toList ++ (f.after a).attachments rest

end Forest

end QueryForest
