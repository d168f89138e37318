import QueryForest.Proofs.Forest.Edits
import QueryForest.Proofs.Outcome

set_option autoImplicit false

/-!
# Which edits a change can ask for

`Change.Asks` lists, change by change, the edits that come out of a change when everything in it is
found, together with what was found. Whatever depends on the kind of an edit is read off from it,
without another look at how the columns are looked up (`Change.asks_of_requests`).
-/

namespace QueryForest

open Build (makeAggregate)

/-- Whether a change of the node `r` can ask for an edit. -/
inductive Change.Asks (f : Forest) (t : Tree) (r : NodeRef) : Change → Edit → Prop
  | select {target : Target} {aliasName : Option String} {c : ColumnRef}
      (found : t.column r.node target = .ok c) :
      Asks f t r (.select target aliasName) (.select c aliasName)
  | selectAll {targets : List Target} {target : Target} {c : ColumnRef} (mem : target ∈ targets)
      (found : t.column r.node target = .ok c) : Asks f t r (.selectAll targets) (.select c none)
  | exclude {target : Target} {c : ColumnRef} (found : t.column r.node target = .ok c) :
      Asks f t r (.exclude target) (.exclude c.column)
  | excludeAll {targets : List Target} {target : Target} {c : ColumnRef} (mem : target ∈ targets)
      (found : t.column r.node target = .ok c) : Asks f t r (.excludeAll targets) (.exclude c.column)
  | aggregate {function : Sql.AggregateFunction} {target : Option Target}
      {options : Build.AggregateOptions} {c : Option ColumnRef}
      (found : t.columnOption r.node target = .ok c) :
      Asks f t r (.aggregate function target options) (.aggregate (makeAggregate function c options))
  | group {target : Target} {c : ColumnRef} (found : t.column r.node target = .ok c) :
      Asks f t r (.group target) (.group c)
  | groupAll {targets : List Target} {target : Target} {c : ColumnRef} (mem : target ∈ targets)
      (found : t.column r.node target = .ok c) : Asks f t r (.groupAll targets) (.group c)
  | having {function : Sql.AggregateFunction} {target : Option Target} {comparison : Sql.Comparison}
      {value : Value} {c : Option ColumnRef} (found : t.columnOption r.node target = .ok c) :
      Asks f t r (.having function target comparison value)
        (.having ⟨makeAggregate function c {}, comparison, value⟩)
  | sort {target : Target} {options : SortOptions} {c : ColumnRef}
      (found : t.column r.node target = .ok c) : Asks f t r (.sort target options) (.sort ⟨c, options⟩)
  | sortAll {targets : List Target} {direction : Sql.Direction} {target : Target} {c : ColumnRef}
      (mem : target ∈ targets) (found : t.column r.node target = .ok c) :
      Asks f t r (.sortAll targets direction) (.sort ⟨c, { direction }⟩)
  | compare {target : Target} {comparison : Sql.Comparison} {value : Value} {c : ColumnRef}
      (found : t.column r.node target = .ok c) :
      Asks f t r (.compare target comparison value) (.filter (.compare c comparison value))
  | inList {target : Target} {values : List Value} {negated : Bool} {c : ColumnRef}
      (found : t.column r.node target = .ok c) :
      Asks f t r (.inList target values negated) (.filter (.inList c values negated))
  | isNull {target : Target} {negated : Bool} {c : ColumnRef}
      (found : t.column r.node target = .ok c) :
      Asks f t r (.isNull target negated) (.filter (.isNull c negated))
  | inQuery {target : Target} {query : NodeRef} {negated : Bool} {c : ColumnRef}
      (found : t.column r.node target = .ok c) (apart : f.checkNest r query = .ok ()) :
      Asks f t r (.inQuery target query negated) (.filter (.inQuery c query negated))
  | existsQuery {query : NodeRef} {negated : Bool} (apart : f.checkNest r query = .ok ()) :
      Asks f t r (.existsQuery query negated) (.filter (.existsQuery query negated))
  | correlate {target : Target} {comparison : Sql.Comparison} {outerEntity : Entity}
      {outerTarget : Target} {outer : NodeRef} {c outerColumn : ColumnRef}
      (found : t.column r.node target = .ok c)
      (enclosing : (t.node r.node).outer.filter (fun outer => f.isAlive outer.tree) = some outer)
      (foundOuter : t.resolve outerEntity outerTarget = .ok outerColumn) :
      Asks f t r (.correlate target comparison outerEntity outerTarget)
        (.filter (.outer c comparison (f.node outer).aliasName outerColumn.column))
  | on {property : String} {c : ColumnRef} (found : t.column r.node (.property property) = .ok c) :
      Asks f t r (.on property) (.condition ⟨c.column, c.column⟩)
  | onWith {left right : Target} {a b : ColumnRef}
      (foundLeft : t.column (f.reference r).node left = .ok a)
      (foundRight : t.column r.node right = .ok b) :
      Asks f t r (.onWith left right) (.condition ⟨a.column, b.column⟩)
  | fetch {enabled : Bool} : Asks f t r (.fetch enabled) (.fetch enabled)
  | resultType {name : String} : Asks f t r (.resultType name) (.resultType name)
  | mapType {name : String} : Asks f t r (.mapType name) (.mapType name)
  | mapKey {target : Target} {c : ColumnRef} (found : t.column r.node target = .ok c) :
      Asks f t r (.mapKey target) (.mapKey c)
  | propertyAsAlias {enabled : Bool} : Asks f t r (.propertyAsAlias enabled) (.propertyAsAlias enabled)
  | limit {n : UInt64} : Asks f t r (.limit n) (.limit n)
  | offset {n : UInt64} : Asks f t r (.offset n) (.offset n)

namespace Change

variable {f : Forest} {t : Tree} {r : NodeRef} {what : Change} {e : Edit}

/-- **A change asks for no other edits than those that `Asks` lists for it.** -/
theorem asks_of_requests (he : .ok e ∈ what.requests f t r) : what.Asks f t r e := by
  have mapped {α : Type} {x : Except QueryError α} {edit : α → Edit} (he : .ok e = x.map edit) :
      ∃ a, x = .ok a ∧ e = edit a := by
    cases x with
    | error => exact absurd he (by simp [Except.map])
    | ok a => exact ⟨a, rfl, Except.ok.inj he⟩
  -- A change for one column makes its edit of what is found, one for several does so for each.
  cases what with
  | select | exclude | group | sort | compare | inList | isNull | on | mapKey | aggregate | having =>
      obtain ⟨c, found, rfl⟩ := mapped (List.mem_singleton.mp he)
      constructor
      exact found
  | selectAll | excludeAll | groupAll | sortAll =>
      obtain ⟨target, mem, h⟩ := List.mem_map.mp he
      obtain ⟨c, found, rfl⟩ := mapped h.symm
      constructor
      · exact mem
      · exact found
  | fetch | resultType | mapType | propertyAsAlias | limit | offset =>
      obtain rfl := Except.ok.inj (List.mem_singleton.mp he)
      constructor
  | inQuery target query negated =>
      obtain ⟨c, found, h⟩ := Outcome.bind_ok (List.mem_singleton.mp he).symm
      obtain ⟨_, apart, h⟩ := Outcome.bind_ok h
      obtain rfl := Except.ok.inj h
      exact Asks.inQuery found apart
  | existsQuery query negated =>
      obtain ⟨_, apart, h⟩ := Outcome.bind_ok (List.mem_singleton.mp he).symm
      obtain rfl := Except.ok.inj h
      exact Asks.existsQuery apart
  | correlate target comparison outerEntity outerTarget =>
      obtain ⟨c, found, h⟩ := Outcome.bind_ok (List.mem_singleton.mp he).symm
      split at h
      · exact absurd h (by simp)
      · next outer enclosing =>
        obtain ⟨outerColumn, foundOuter, h⟩ := Outcome.bind_ok h
        obtain rfl := Except.ok.inj h
        exact Asks.correlate found enclosing foundOuter
  | onWith left right =>
      obtain ⟨a, foundLeft, h⟩ := Outcome.bind_ok (List.mem_singleton.mp he).symm
      obtain ⟨b, foundRight, h⟩ := Outcome.bind_ok h
      obtain rfl := Except.ok.inj h
      exact Asks.onWith foundLeft foundRight

end Change

end QueryForest
