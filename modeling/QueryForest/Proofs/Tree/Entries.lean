import QueryForest.Proofs.Tree.Projection

set_option autoImplicit false

/-!
# The entries of clauses

Filters, the conditions of a join, groups, conditions on aggregates and sort keys stand on lists that
a node keeps, one for each clause. Which entry a call puts onto its list is told by the call and by
what is found around the node (`Change.added?`). The lists of a node hold the entries of its calls, one
for each call and in their order, and nothing else (`Node.lists_faithful`).
-/

namespace QueryForest

/-- The clauses whose entries are kept on lists. -/
inductive Clause where
  | filter
  /-- The condition of a join. -/
  | on
  | group
  | having
  | order
  deriving DecidableEq

/-- An entry of a clause. -/
inductive Entry where
  | filter (predicate : Filter)
  | on (condition : OnCondition)
  | group (column : ColumnRef)
  | having (h : Having)
  | order (key : SortKey)

def Entry.clause : Entry → Clause
  | filter _ => .filter
  | on _ => .on
  | group _ => .group
  | having _ => .having
  | order _ => .order

/-- The entries that a node has for a clause. -/
def Node.entries (n : Node) : Clause → List Entry
  | .filter => n.filters.map .filter
  | .on => ((n.join.map (·.conditions)).getD []).map .on
  | .group => n.groups.map .group
  | .having => n.having.map .having
  | .order => n.order.map .order

/-! ## Calls for a clause -/

namespace Change

/-- The clause that a change is for. -/
def clause? : Change → Option Clause
  | compare _ _ _ | inList _ _ _ | isNull _ _ | inQuery _ _ _ | existsQuery _ _ | correlate _ _ _ _ =>
    some .filter
  | on _ | onWith _ _ => some .on
  | group _ | groupAll _ => some .group
  | having _ _ _ _ => some .having
  | sort _ _ | sortAll _ _ => some .order
  | _ => none

/-- The entry that a change adds to its clause, when everything in it is found. The left side of the
condition of a join is looked up for the node that the join was created from. -/
def added? (around : Surroundings) : Change → Option Entry
  | compare target comparison value =>
    (around.column target).toOption.map fun c => .filter (.compare c comparison value)
  | inList target values negated =>
    (around.column target).toOption.map fun c => .filter (.inList c values negated)
  | isNull target negated =>
    (around.column target).toOption.map fun c => .filter (.isNull c negated)
  | inQuery target query negated =>
    (around.column target).toOption.map fun c => .filter (.inQuery c query negated)
  | existsQuery query negated => some (.filter (.existsQuery query negated))
  | correlate target comparison outerEntity outerTarget => do
    let c ← (around.column target).toOption
    let outerAlias ← around.outer
    let outerColumn ← (around.resolve outerEntity outerTarget).toOption
    return .filter (.outer c comparison outerAlias outerColumn.column)
  | on property =>
    (around.column (.property property)).toOption.map fun c => .on ⟨c.column, c.column⟩
  | onWith left right => do
    let a ← (around.left left).toOption
    let b ← (around.column right).toOption
    return .on ⟨a.column, b.column⟩
  | group target => (around.column target).toOption.map .group
  | having function target comparison value =>
    (lookOption around.column target).toOption.map fun c =>
      .having ⟨Build.makeAggregate function c {}, comparison, value⟩
  | sort target options => (around.column target).toOption.map fun c => .order ⟨c, options⟩
  | _ => none

/-- Only the condition of a join needs the node that the join was created from. -/
theorem added?_left {c : Change} (other : c.clause? ≠ some .on) (around : Surroundings)
    (left : Target → Except QueryError ColumnRef) :
    c.added? { around with left } = c.added? around := by
  cases c with
  | onWith => exact absurd rfl other
  | _ => rfl

/-- A comparison with a column of the enclosing query names the node around the query. -/
theorem outer_of_added? {c : Change} {around : Surroundings} {own : ColumnRef}
    {comparison : Sql.Comparison} {outerAlias outerColumn : String}
    (made : c.added? around = some (.filter (.outer own comparison outerAlias outerColumn))) :
    around.outer = some outerAlias := by
  cases c with
  | correlate target comparison outerEntity outerTarget =>
      obtain ⟨_, -, made⟩ := Option.bind_eq_some_iff.mp made
      obtain ⟨_, outer, made⟩ := Option.bind_eq_some_iff.mp made
      obtain ⟨_, -, made⟩ := Option.bind_eq_some_iff.mp made
      have same := Entry.filter.inj (Option.some.inj made)
      rw [outer, (Filter.outer.inj same).2.2.1]
  | onWith left right =>
      obtain ⟨_, -, made⟩ := Option.bind_eq_some_iff.mp made
      obtain ⟨_, -, made⟩ := Option.bind_eq_some_iff.mp made
      exact absurd (Option.some.inj made) nofun
  | _ => simp [added?] at made

end Change

/-- Those of some changes that are for a clause. -/
def callsFor (clause : Clause) (changes : List Change) : List Change :=
  changes.filter (·.clause? = some clause)

theorem mem_callsFor {clause : Clause} {changes : List Change} {c : Change} :
    c ∈ callsFor clause changes ↔ c ∈ changes ∧ c.clause? = some clause := by
  rw [callsFor, List.mem_filter, decide_eq_true_iff]

/-! ## Edits for a clause -/

namespace Edit

/-- The entry that an edit adds to its clause. -/
def added? : Edit → Option Entry
  | filter predicate => some (.filter predicate)
  | condition c => some (.on c)
  | group c => some (.group c)
  | having h => some (.having h)
  | sort key => some (.order key)
  | _ => none

/-- An edit adds its entry to the list for it and leaves the other lists alone. -/
theorem entries_apply (e : Edit) {n : Node} {clause : Clause} (join : clause = .on → n.join.isSome) :
    (e.apply n).entries clause = n.entries clause ++ e.added?.toList.filter (·.clause = clause) := by
  have alone {entries : List Entry} : entries = entries ++ [] := (List.append_nil entries).symm
  cases e with
  | select c aliasName =>
      have same : (n.select (.column c aliasName)).entries clause = n.entries clause := by
        unfold Node.select
        split <;> cases clause <;> rfl
      exact same.trans alone
  | exclude column =>
      have same : (n.exclude column).entries clause = n.entries clause := by
        unfold Node.exclude
        split <;> cases clause <;> rfl
      exact same.trans alone
  | condition c =>
      cases clause with
      | on =>
          obtain ⟨edge, hedge⟩ := Option.isSome_iff_exists.mp (join rfl)
          simp only [apply, Node.addCondition, Node.entries, hedge, Option.map_some, Option.getD_some]
          exact List.map_append
      | _ => exact alone
  | filter | group | having | sort => cases clause <;> first | exact List.map_append | exact alone
  | _ => cases clause <;> exact alone

end Edit

namespace Change.Asks

variable {f : Forest} {t : Tree} {r : NodeRef} {c : Change} {e : Edit}

/-- A single change asks for the edit that adds its entry. -/
theorem added? (asks : c.Asks f t r e) (ht : f.tree? r.tree = some t) (single : c.singles = [c]) :
    c.added? (t.surroundings f r.node) = e.added? := by
  have look : (t.surroundings f r.node).column = t.column r.node := rfl
  cases asks with
  | compare found | inList found | isNull found | inQuery found | on found | group found | sort found =>
      simp [Change.added?, Edit.added?, look, found, Except.toOption]
  | having found =>
      rw [t.columnOption_eq] at found
      simp [Change.added?, Edit.added?, look, found, Except.toOption]
  | correlate found enclosing foundOuter =>
      have outer := (Option.filter_eq_some_iff.mp enclosing).1
      have resolve : (t.surroundings f r.node).resolve = t.resolve := rfl
      have aliasName : (t.surroundings f r.node).outer = (t.node r.node).outer.map _ := rfl
      simp [Change.added?, Edit.added?, look, resolve, aliasName, found, outer, foundOuter,
        Except.toOption]
  | onWith foundLeft foundRight =>
      rw [Forest.reference, Forest.node_eq ht] at foundLeft
      have left : (t.surroundings f r.node).left
          = t.column (((t.node r.node).join.map (·.reference)).getD r.node) := rfl
      simp [Change.added?, Edit.added?, look, left, foundLeft, foundRight, Except.toOption]
  -- A call for several columns is not a single change, unless it is for none.
  | @groupAll targets => cases targets <;> simp [Change.singles] at single
  | @sortAll targets => cases targets <;> simp [Change.singles] at single
  | _ => rfl

/-- The entry is for the clause that the change is for. -/
theorem clause? (asks : c.Asks f t r e) : c.clause? = e.added?.map Entry.clause := by
  cases asks <;> rfl

end Change.Asks

/-! ## The lists of a node -/

/-- Whether the lists of a node hold the entries of some changes. A node that is no join has no list of
conditions. -/
def Node.Lists (around : Surroundings) (n : Node) (changes : List Change) : Prop :=
  ∀ clause, (clause = .on → n.join.isSome) →
    (callsFor clause changes).map (Change.added? around) = (n.entries clause).map some

/-- Every filter of a node is the entry of one of its calls. -/
theorem Node.Lists.exists_call {around : Surroundings} {n : Node} {changes : List Change}
    (lists : n.Lists around changes) {p : Filter} (hp : p ∈ n.filters) :
    ∃ c ∈ callsFor .filter changes, c.added? around = some (.filter p) := by
  have listed : some (.filter p) ∈ (n.entries .filter).map some :=
    List.mem_map_of_mem (List.mem_map_of_mem hp)
  rw [← lists .filter nofun] at listed
  exact List.mem_map.mp listed

/-- **The lists of nodes hold the entries of their calls.** -/
theorem Node.lists_faithful : Account.Faithful Node.Lists := by
  constructor
  case fresh =>
    intro around n fresh clause join
    have none : n.entries clause = [] := by
      cases clause with
      | on =>
          obtain ⟨edge, hedge⟩ := Option.isSome_iff_exists.mp (join rfl)
          simp [entries, hedge, fresh.conditions edge hedge]
      | _ =>
          rw [fresh.bare]
          rfl
    rw [none]
    rfl
  case attach =>
    intro around n changes parent h clause join
    have same : (Tree.setParent parent n).entries clause = n.entries clause := by
      cases hjoin : n.join <;> cases clause <;> simp [entries, Tree.setParent, hjoin]
    rw [same]
    refine h clause fun on => ?_
    simpa [Tree.setParent] using join on
  case branch =>
    intro around n changes left h clause join
    have other : clause ≠ .on := fun on => absurd (join on) (by simp [branch])
    have same : n.branch.entries clause = n.entries clause := by
      cases clause with
      | on => exact absurd rfl other
      | _ => rfl
    rw [same, ← h clause fun on => absurd on other]
    refine List.map_congr_left fun c hc => Change.added?_left ?_ around left
    rw [(mem_callsFor.mp hc).2]
    exact fun on => other (Option.some.inj on)
  case edit =>
    intro f t r c e changes ht asks single h clause join
    have joined : clause = .on → (t.node r.node).join.isSome := by
      intro on
      have after := join on
      obtain ⟨conditions, kept⟩ := e.join_apply (t.node r.node)
      rw [kept, Option.isSome_map] at after
      exact after
    have call : (callsFor clause [c]).map (Change.added? (t.surroundings f r.node))
        = (e.added?.toList.filter (·.clause = clause)).map some := by
      have found := asks.added? ht single
      rw [callsFor, List.filter_singleton, asks.clause?]
      cases added : e.added? with
      | none => rfl
      | some entry => by_cases here : entry.clause = clause <;> simp [here, found, added]
    calc (callsFor clause (changes ++ [c])).map (Change.added? (t.surroundings f r.node))
        = (callsFor clause changes).map (Change.added? (t.surroundings f r.node))
          ++ (callsFor clause [c]).map (Change.added? (t.surroundings f r.node)) := by
          rw [callsFor, List.filter_append, List.map_append]
          rfl
      _ = ((t.node r.node).entries clause).map some
          ++ (e.added?.toList.filter (·.clause = clause)).map some := by rw [h clause joined, call]
      _ = ((e.apply (t.node r.node)).entries clause).map some := by
          rw [e.entries_apply joined, List.map_append]

end QueryForest
