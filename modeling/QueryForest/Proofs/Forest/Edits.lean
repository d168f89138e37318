import QueryForest.Forest.Run

set_option autoImplicit false

/-!
# Changes as edits

A change looks things up and then changes its node. An `Edit` is what is left when everything has
been looked up, and the `requests` of a change are its edits in their order, each of which may turn
out to be an error. `Change.perform_eq` says that performing a change makes its edits up to the
first error: what one edit does never depends on those before it.
-/

namespace QueryForest

/-- A change of one node, after everything in it has been looked up. -/
inductive Edit where
  | select (column : ColumnRef) (aliasName : Option String)
  | exclude (column : String)
  | aggregate (a : Aggregate)
  | group (column : ColumnRef)
  | having (h : Having)
  | sort (key : SortKey)
  | filter (predicate : Filter)
  | condition (c : OnCondition)
  | fetch (enabled : Bool)
  | resultType (name : String)
  | mapType (name : String)
  | mapKey (column : ColumnRef)
  | propertyAsAlias (enabled : Bool)
  | limit (n : UInt64)
  | offset (n : UInt64)

/-- Makes an edit. -/
def Edit.apply : Edit → Node → Node
  | select c aliasName, n => n.select (.column c aliasName)
  | exclude column, n => n.exclude column
  | aggregate a, n => n.addAggregate a
  | group c, n => n.group c
  | having h, n => n.addHaving h
  | sort key, n => n.sort key
  | filter predicate, n => n.filter predicate
  | condition c, n => n.addCondition c
  | fetch enabled, n => { n with fetch := enabled }
  | resultType name, n => { n with result := { n.result with resultType := some name } }
  | mapType name, n => { n with result := { n.result with mapType := some name } }
  | mapKey c, n => n.setMapKey c
  | propertyAsAlias enabled, n => { n with result := { n.result with propertyAsAlias := enabled } }
  | limit k, n => { n with limit := some k }
  | offset k, n => { n with offset := some k }

/-- No edit changes what a node takes its rows from. -/
@[simp] theorem Edit.source_apply (e : Edit) (n : Node) : (e.apply n).source = n.source := by
  cases e with
  | select => simp only [apply, Node.select]; split <;> rfl
  | exclude => simp only [apply, Node.exclude]; split <;> rfl
  | _ => rfl

namespace Forest

/-- Edits a node. -/
def edit (f : Forest) (r : NodeRef) (e : Edit) : Forest :=
  match f.tree? r.tree with
  | some t => f.setTree r.tree (t.modify r.node e.apply)
  | none => f

/-- Makes edits up to the first error. -/
def editAll (f : Forest) (r : NodeRef) :
    List (Except QueryError Edit) → EStateM.Result QueryError Forest Unit
  | [] => .ok () f
  | .error e :: _ => .error e f
  | .ok e :: rest => (f.edit r e).editAll r rest

/-- What `Build.nest` checks. -/
def checkNest (f : Forest) (host query : NodeRef) : Except QueryError Unit :=
  if f.contains query.tree host.tree then .error (.cycle (f.node query).aliasName) else .ok ()

end Forest

/-- The column of a node that a target names. -/
def Tree.column (t : Tree) (id : NodeId) (target : Target) : Except QueryError ColumnRef :=
  t.resolve (t.node id).entity target

/-- The column of a target that may be missing. -/
def Tree.columnOption (t : Tree) (id : NodeId) : Option Target → Except QueryError (Option ColumnRef)
  | none => .ok none
  | some target => (t.column id target).map some

/-- The edits that a change asks for, in the forest `f` of the tree `t`. -/
def Change.requests (f : Forest) (t : Tree) (r : NodeRef) : Change → List (Except QueryError Edit)
  | select target aliasName => [(t.column r.node target).map (.select · aliasName)]
  | selectAll targets => targets.map fun target => (t.column r.node target).map (.select · none)
  | exclude target => [(t.column r.node target).map fun c => .exclude c.column]
  | excludeAll targets =>
    targets.map fun target => (t.column r.node target).map fun c => .exclude c.column
  | aggregate function target options =>
    [(t.columnOption r.node target).map fun c => .aggregate (Build.makeAggregate function c options)]
  | group target => [(t.column r.node target).map .group]
  | groupAll targets => targets.map fun target => (t.column r.node target).map .group
  | having function target comparison value =>
    [(t.columnOption r.node target).map fun c =>
      .having ⟨Build.makeAggregate function c {}, comparison, value⟩]
  | sort target options => [(t.column r.node target).map fun c => .sort ⟨c, options⟩]
  | sortAll targets direction =>
    targets.map fun target => (t.column r.node target).map fun c => .sort ⟨c, { direction }⟩
  | compare target comparison value =>
    [(t.column r.node target).map fun c => .filter (.compare c comparison value)]
  | inList target values negated =>
    [(t.column r.node target).map fun c => .filter (.inList c values negated)]
  | isNull target negated => [(t.column r.node target).map fun c => .filter (.isNull c negated)]
  | inQuery target query negated =>
    [do let c ← t.column r.node target
        f.checkNest r query
        return .filter (.inQuery c query negated)]
  | existsQuery query negated =>
    [do f.checkNest r query
        return .filter (.existsQuery query negated)]
  | correlate target comparison outerEntity outerTarget =>
    [do let c ← t.column r.node target
        match (t.node r.node).outer.filter fun outer => f.isAlive outer.tree with
        | none => .error (.missingReference (t.aliasOf r.node) .noEnclosingQuery)
        | some outer =>
          let outerColumn ← t.resolve outerEntity outerTarget
          return .filter (.outer c comparison (f.node outer).aliasName outerColumn.column)]
  | on property =>
    [(t.column r.node (.property property)).map fun c => .condition ⟨c.column, c.column⟩]
  | onWith left right =>
    [do let left ← t.column (f.reference r).node left
        let right ← t.column r.node right
        return .condition ⟨left.column, right.column⟩]
  | fetch enabled => [.ok (.fetch enabled)]
  | resultType name => [.ok (.resultType name)]
  | mapType name => [.ok (.mapType name)]
  | mapKey target => [(t.column r.node target).map .mapKey]
  | propertyAsAlias enabled => [.ok (.propertyAsAlias enabled)]
  | limit n => [.ok (.limit n)]
  | offset n => [.ok (.offset n)]

end QueryForest
