import QueryForest.Proofs.Forest.Rendering

set_option autoImplicit false

/-!
# Nodes without a list of results

A root falls back on its columns when nothing is left of what was asked for on it, a join already when no
column is (`Node.isImplicit_iff`). Asking for all columns of an entity one by one, by their properties and
in the order of their declaration, comes to the same as not asking for anything: nothing about the results
of the node changes, whatever is excluded (`Tree.projection_spelled`).
-/

namespace QueryForest

open Sql (Expr Select)

/-! ## When a node is implicit -/

namespace Node

variable {n : Node}

theorem hasVisibleColumn_iff : n.hasVisibleColumn = true ↔
    ∃ c aliasName, .column c aliasName ∈ n.selected ∧ c.column ∉ n.excluded := by
  unfold hasVisibleColumn
  rw [List.any_eq_true]
  constructor
  · rintro ⟨item, mem, visible⟩
    cases item with
    | column c aliasName => exact ⟨c, aliasName, mem, by simpa using visible⟩
    | aggregate a => exact absurd visible Bool.false_ne_true
  · rintro ⟨c, aliasName, mem, kept⟩
    exact ⟨_, mem, by simpa using kept⟩

theorem hasAggregates_iff : n.hasAggregates = true ↔ ∃ a, .aggregate a ∈ n.selected := by
  unfold hasAggregates
  rw [List.any_eq_true]
  constructor
  · rintro ⟨item, mem, found⟩
    cases item with
    | column c aliasName => exact absurd found Bool.false_ne_true
    | aggregate a => exact ⟨a, mem⟩
  · rintro ⟨a, mem⟩
    exact ⟨_, mem, rfl⟩

/-- What is left of the results are columns and aggregates. -/
theorem selectExprs_ne_nil_iff :
    n.selectExprs ≠ [] ↔ n.hasVisibleColumn = true ∨ n.hasAggregates = true := by
  rw [selectExprs_ne_nil, hasVisibleColumn_iff, hasAggregates_iff]
  constructor
  · rintro ⟨item, mem, kept⟩
    cases item with
    | column c aliasName => exact Or.inl ⟨c, aliasName, mem, kept⟩
    | aggregate a => exact Or.inr ⟨a, mem⟩
  · rintro (⟨c, aliasName, mem, kept⟩ | ⟨a, mem⟩)
    · exact ⟨_, mem, kept⟩
    · exact ⟨_, mem, trivial⟩

/-- A root falls back when nothing is left on it. A join falls back when no column is. -/
theorem isImplicit_iff {isRoot : Bool} : n.isImplicit isRoot = true ↔
    n.selectExprs = [] ∨ (isRoot = false ∧ n.hasVisibleColumn = false) := by
  have left : n.selectExprs = [] ↔ n.hasVisibleColumn = false ∧ n.hasAggregates = false := by
    rw [← not_iff_not, ← ne_eq, selectExprs_ne_nil_iff]
    cases n.hasVisibleColumn <;> cases n.hasAggregates <;> decide
  rw [left, isImplicit]
  cases isRoot <;> cases n.hasVisibleColumn <;> cases n.hasAggregates <;> decide

end Node

/-! ## Columns asked for one by one -/

namespace Node

variable {n : Node} {columns : List Column} {isRoot : Bool}

/-- The item that asks for a column by its property. -/
def spelling (c : Column) : SelectItem := .column ⟨c.name, some c.property⟩ none

/-- A node on which nothing is asked for. -/
def unasked (n : Node) : Node := { n with selected := [] }

/-- A node on which nothing but some columns is asked for. -/
def spelled (columns : List Column) (n : Node) : Node := { n with selected := columns.map spelling }

/-- What is left of the columns is the same as without asking for them. -/
theorem selectExprs_spelled : (n.spelled columns).selectExprs = n.columnExprs columns := by
  have item : (n.spelled columns).itemExpr? = n.itemExpr? := by
    funext item
    cases item <;> rfl
  rw [selectExprs, item]
  show (columns.map spelling).filterMap n.itemExpr? = n.columnExprs columns
  clear item
  unfold columnExprs
  induction columns with
  | nil => rfl
  | cons c rest ih =>
      have first : n.itemExpr? (spelling c) = if c.name ∈ n.excluded then none
          else some ((n.columnExpr c.name).underAlias
            (if n.result.propertyAsAlias then some c.property else none)) := rfl
      rw [List.map_cons, List.filterMap_cons, first]
      by_cases mem : c.name ∈ n.excluded
      · rw [if_pos mem, List.filter_cons_of_neg (by simpa using mem)]
        exact ih
      · rw [if_neg mem, List.filter_cons_of_pos (by simpa using mem), List.map_cons, ← ih]

theorem hasAggregates_spelled : (n.spelled columns).hasAggregates = false := by
  rw [← Bool.not_eq_true, hasAggregates_iff]
  rintro ⟨a, mem⟩
  obtain ⟨c, -, same⟩ := List.mem_map.mp mem
  exact absurd same nofun

theorem isImplicit_spelled :
    (n.spelled columns).isImplicit isRoot = true ↔ n.columnExprs columns = [] := by
  have left := (n.spelled columns).selectExprs_ne_nil_iff
  rw [selectExprs_spelled, hasAggregates_spelled] at left
  rw [isImplicit_iff, selectExprs_spelled]
  refine or_iff_left_of_imp fun ⟨_, hidden⟩ => ?_
  by_contra some
  exact absurd (left.mp some) (by simp [hidden])

end Node

namespace Tree

variable {t : Tree} {n : Node} {e : Entity} {columns : List Column}
  {nested : NodeRef → Except QueryError Select}

/-- **A node on which nothing is asked for has the results that it has when all columns of its entity
are asked for.** -/
theorem projection_spelled (source : n.source = .entity e) (known : t.mappings.columns? e = some columns)
    (unasked : n.selected = []) (isRoot : Bool) :
    t.projection (n.spelled columns) isRoot = t.projection n isRoot := by
  have found : t.columnsOf e = .ok columns := by rw [columnsOf, known]
  have implicit : n.isImplicit isRoot = true :=
    Node.isImplicit_iff.mpr (Or.inl (by rw [Node.selectExprs, unasked]; rfl))
  have before : t.projection n isRoot = .ok (n.columnExprs columns) := by
    unfold projection
    rw [if_pos implicit, source]
    simp only [found, Node.selectExprs, unasked]
    rfl
  rw [before]
  unfold projection
  by_cases none : n.columnExprs columns = []
  · -- Everything is excluded: the node falls back, and nothing is left there either.
    have source' : (n.spelled columns).source = .entity e := source
    rw [if_pos (Node.isImplicit_spelled.mpr none), source', Node.selectExprs_spelled]
    simp only [found, none]
    exact congrArg Except.ok none
  · rw [if_neg (mt Node.isImplicit_spelled.mp none), Node.selectExprs_spelled]

/-- A node brings the same into a query whether all columns of its entity are asked for on it or none. -/
theorem part_unasked (source : n.source = .entity e) (known : t.mappings.columns? e = some columns)
    (all : n.selected = [] ∨ n.selected = columns.map Node.spelling) (isRoot : Bool) :
    t.part nested n.unasked isRoot = t.part nested n isRoot := by
  have spelled : t.projection (n.unasked.spelled columns) isRoot = t.projection n.unasked isRoot :=
    projection_spelled (n := n.unasked) source known rfl isRoot
  have shown : t.shownColumns n.unasked isRoot = t.shownColumns n isRoot := by
    unfold shownColumns
    rcases all with none | all
    · have same : n.unasked = n := by rw [Node.unasked, ← none]
      rw [same]
    · have same : n.unasked.spelled columns = n := by rw [Node.spelled, ← all]; rfl
      rw [← spelled, same]
      rfl
  rw [part_eq, part_eq, shown]
  rfl

end Tree

end QueryForest
