import QueryForest.Proofs.Forest.Chronicle
import QueryForest.Proofs.Tree.Select

set_option autoImplicit false

/-!
# Results and exclusions

What a node brings into the columns of a query, read off the calls that were made on it. The results
that were asked for stand in the order in which they were asked for at first (`firsts`), without those
whose column is excluded, before or after they were asked for (`Tree.wanted`). A call names its column by
a property or by the column itself, and an exclusion takes both: they meet on the name of the column
(`Node.Collects`).
-/

namespace QueryForest

open Sql (Expr)

/-! ## What is asked for -/

/-- A call for a result. -/
inductive Asked where
  | column (target : Target) (aliasName : Option String)
  | aggregate (function : Sql.AggregateFunction) (target : Option Target)
      (options : Build.AggregateOptions)
  deriving DecidableEq

def Asked.isColumn : Asked → Bool
  | column _ _ => true
  | aggregate _ _ _ => false

/-- What a change asks for. -/
def Change.asked? : Change → Option Asked
  | select target aliasName => some (.column target aliasName)
  | aggregate function target options => some (.aggregate function target options)
  | _ => none

/-- What some changes ask for, one after the other. -/
def askedIn (changes : List Change) : List Asked := changes.filterMap Change.asked?

/-- Calls for results without those for a column that was asked for before under the same alias. -/
def firsts (seen : List Asked) : List Asked → List Asked
  | [] => []
  | a :: rest => if a.isColumn && a ∈ seen then firsts seen rest else a :: firsts (a :: seen) rest

theorem mem_firsts {seen l : List Asked} {a : Asked} :
    a ∈ firsts seen l ↔ a ∈ l ∧ (a.isColumn → a ∉ seen) := by
  induction l generalizing seen with
  | nil => simp [firsts]
  | cons b rest ih =>
      rw [firsts]
      split
      · next again =>
        obtain ⟨isColumn, mem⟩ := Bool.and_eq_true_iff.mp again
        rw [ih, List.mem_cons]
        refine ⟨fun ⟨there, new⟩ => ⟨Or.inr there, new⟩, ?_⟩
        rintro ⟨rfl | there, new⟩
        · exact absurd (of_decide_eq_true mem) (new isColumn)
        · exact ⟨there, new⟩
      · next kept =>
        rw [List.mem_cons, ih, List.mem_cons, List.mem_cons]
        by_cases same : a = b
        · subst same
          refine ⟨fun _ => ⟨Or.inl rfl, fun isColumn mem => kept ?_⟩, fun _ => Or.inl rfl⟩
          exact Bool.and_eq_true_iff.mpr ⟨isColumn, decide_eq_true mem⟩
        · simp [same]

/-- One more call counts unless it repeats one for a column. -/
theorem firsts_append (seen l : List Asked) (a : Asked) :
    firsts seen (l ++ [a])
      = firsts seen l ++ if a.isColumn ∧ (a ∈ seen ∨ a ∈ l) then [] else [a] := by
  -- By induction on the calls before, for any calls that were seen before these.
  induction l generalizing seen with
  | nil => by_cases again : a.isColumn ∧ a ∈ seen <;> simp_all [firsts]
  | cons b rest ih =>
      rw [List.cons_append, firsts, firsts]
      split
      · next again =>
        have seenBefore : b ∈ seen := of_decide_eq_true (Bool.and_eq_true_iff.mp again).2
        have same : (a ∈ seen ∨ a ∈ rest) ↔ (a ∈ seen ∨ a ∈ b :: rest) := by
          rw [List.mem_cons]
          constructor
          · exact Or.imp_right Or.inr
          · rintro (old | rfl | there)
            · exact Or.inl old
            · exact Or.inl seenBefore
            · exact Or.inr there
        rw [ih]
        simp only [same]
      · have same : (a ∈ b :: seen ∨ a ∈ rest) ↔ (a ∈ seen ∨ a ∈ b :: rest) := by
          rw [List.mem_cons, List.mem_cons]
          tauto
        rw [ih, List.cons_append]
        simp only [same]

/-! ## Columns of calls -/

section Lookup

variable (look : Target → Except QueryError ColumnRef)

/-- The column of a target that may be missing. -/
def lookOption : Option Target → Except QueryError (Option ColumnRef)
  | none => .ok none
  | some target => (look target).map some

/-- The column that a change excludes. -/
def Change.excluded? : Change → Option String
  | exclude target => (look target).toOption.map (·.column)
  | _ => none

/-- The columns that some changes exclude. -/
def exclusions (changes : List Change) : List String := changes.filterMap (Change.excluded? look)

/-- The item of the results that a call has made. -/
inductive Asked.Makes : Asked → SelectItem → Prop
  | column {target : Target} {aliasName : Option String} {c : ColumnRef} (found : look target = .ok c) :
      Makes (.column target aliasName) (.column c aliasName)
  | aggregate {function : Sql.AggregateFunction} {target : Option Target}
      {options : Build.AggregateOptions} {c : Option ColumnRef}
      (found : lookOption look target = .ok c) :
      Makes (.aggregate function target options)
        (.aggregate (Build.makeAggregate function c options))

/-- What stands in the query of a node for a call, unless the column is excluded. -/
def Node.askedExpr? (n : Node) (excluded : List String) : Asked → Option Expr
  | .column target aliasName =>
    (look target).toOption.bind fun c =>
      if c.column ∈ excluded then none
      else some ((Expr.column n.aliasName c.column).underAlias
        (aliasName.or (if n.result.propertyAsAlias then c.property else none)))
  | .aggregate function target options =>
    (lookOption look target).toOption.map fun c =>
      (n.aggregateExpr (Build.makeAggregate function c options)).underAlias options.aliasName

end Lookup

theorem Tree.columnOption_eq (t : Tree) (v : NodeId) (target : Option Target) :
    t.columnOption v target = lookOption (t.column v) target := by
  cases target <;> rfl

/-- The target that names a column. -/
def ColumnRef.target (c : ColumnRef) : Target :=
  match c.property with
  | some name => .property name
  | none => .column c.column

/-- A column tells by which target it was found. -/
theorem Tree.target_of_column {t : Tree} {v : NodeId} {target : Target} {c : ColumnRef}
    (found : t.column v target = .ok c) : target = c.target := by
  cases target with
  | column name =>
      obtain rfl := Except.ok.inj found
      rfl
  | property name =>
      unfold column resolve at found
      split at found
      · next same => exact absurd same (by simp)
      · next same =>
        obtain rfl := Target.property.inj same
        split at found
        · obtain rfl := Except.ok.inj found
          rfl
        · exact absurd found (by simp)

/-! ## What a node collects -/

/-- Whether a node has collected what some changes asked for and excluded. -/
structure Node.Collects (look : Target → Except QueryError ColumnRef) (n : Node)
    (changes : List Change) : Prop where
  selected : List.Forall₂ (Asked.Makes look) (firsts [] (askedIn changes)) n.selected
  excluded : ∀ column, column ∈ n.excluded ↔ column ∈ exclusions look changes

namespace Node.Collects

variable {look : Target → Except QueryError ColumnRef} {n n' : Node} {changes : List Change}

/-- Every call on the list has found its column. -/
theorem found (h : n.Collects look changes) {a : Asked} (ha : a ∈ askedIn changes) :
    ∃ item ∈ n.selected, a.Makes look item :=
  Outcome.forall₂_mem_left h.selected (mem_firsts.mpr ⟨ha, fun _ => List.not_mem_nil⟩)

/-- A change that neither asks for anything nor excludes anything leaves no trace. -/
theorem skip (h : n.Collects look changes) {c : Change} (plain : c.asked? = none)
    (keeps : c.excluded? look = none) (selected : n'.selected = n.selected)
    (excluded : n'.excluded = n.excluded) : n'.Collects look (changes ++ [c]) := by
  have asked : askedIn (changes ++ [c]) = askedIn changes := by
    simp [askedIn, plain]
  have left : exclusions look (changes ++ [c]) = exclusions look changes := by
    simp [exclusions, keeps]
  exact ⟨by rw [asked, selected]; exact h.selected, by rw [left, excluded]; exact h.excluded⟩

/-- One more exclusion. -/
theorem exclude (h : n.Collects look changes) {target : Target} {c : ColumnRef}
    (found : look target = .ok c) :
    (n.exclude c.column).Collects look (changes ++ [.exclude target]) := by
  have asked : askedIn (changes ++ [.exclude target]) = askedIn changes := by
    simp [askedIn, Change.asked?]
  have more : exclusions look (changes ++ [.exclude target])
      = exclusions look changes ++ [c.column] := by
    simp [exclusions, Change.excluded?, found, Except.toOption]
  have selected : (n.exclude c.column).selected = n.selected := by
    unfold Node.exclude
    split <;> rfl
  constructor
  · rw [asked, selected]
    exact h.selected
  · intro column
    rw [more, List.mem_append, ← h.excluded, List.mem_singleton]
    unfold Node.exclude
    -- A column that is excluded already is not put in again.
    split
    · next already =>
      refine ⟨Or.inl, ?_⟩
      rintro (old | rfl)
      · exact old
      · exact already
    · exact List.mem_append.trans (or_congr_right List.mem_singleton)

/-- One more aggregate, also when it was asked for before. -/
theorem aggregate (h : n.Collects look changes) {function : Sql.AggregateFunction}
    {target : Option Target} {options : Build.AggregateOptions} {c : Option ColumnRef}
    (found : lookOption look target = .ok c) :
    (n.addAggregate (Build.makeAggregate function c options)).Collects look
      (changes ++ [.aggregate function target options]) := by
  have asked : askedIn (changes ++ [.aggregate function target options])
      = askedIn changes ++ [.aggregate function target options] := by
    simp [askedIn, Change.asked?]
  have same : exclusions look (changes ++ [.aggregate function target options])
      = exclusions look changes := by
    simp [exclusions, Change.excluded?]
  constructor
  · rw [asked, firsts_append, if_neg (fun again => Bool.false_ne_true again.1)]
    exact List.rel_append h.selected (.cons (.aggregate found) .nil)
  · rw [same]
    exact h.excluded

/-- One more column, unless it was asked for before by the same target and under the same alias. -/
theorem select (h : n.Collects look changes)
    (named : ∀ {target c}, look target = .ok c → target = c.target) {target : Target} {c : ColumnRef}
    {aliasName : Option String} (found : look target = .ok c) :
    (n.select (.column c aliasName)).Collects look (changes ++ [.select target aliasName]) := by
  have asked : askedIn (changes ++ [.select target aliasName])
      = askedIn changes ++ [.column target aliasName] := by
    simp [askedIn, Change.asked?]
  have same : exclusions look (changes ++ [.select target aliasName]) = exclusions look changes := by
    simp [exclusions, Change.excluded?]
  -- The item is there just when the call was made before.
  have before : .column c aliasName ∈ n.selected ↔ .column target aliasName ∈ askedIn changes := by
    constructor
    · intro mem
      obtain ⟨a, ha, makes⟩ := Outcome.forall₂_mem_right h.selected mem
      cases makes with
      | column found' =>
          rw [named found, ← named found']
          exact (mem_firsts.mp ha).1
    · intro mem
      obtain ⟨item, there, makes⟩ := h.found mem
      cases makes with
      | column found' =>
          obtain rfl := Except.ok.inj (found.symm.trans found')
          exact there
  have excluded : (n.select (.column c aliasName)).excluded = n.excluded := by
    unfold Node.select
    split <;> rfl
  constructor
  · rw [asked, firsts_append]
    by_cases again : .column target aliasName ∈ askedIn changes
    · rw [if_pos ⟨rfl, Or.inr again⟩, List.append_nil, Node.select, if_pos (before.mpr again)]
      exact h.selected
    · rw [if_neg (by simp [again]), Node.select, if_neg (mt before.mp again)]
      exact List.rel_append h.selected (.cons (.column found) .nil)
  · rw [same, excluded]
    exact h.excluded

end Node.Collects

/-- **Nodes collect what their changes ask for and exclude.** -/
theorem Node.collects_faithful :
    Account.Faithful fun around n changes => n.Collects around.column changes := by
  constructor
  case fresh =>
    intro around n fresh
    rw [fresh.bare]
    exact ⟨.nil, fun column => by simp [exclusions]⟩
  case attach => exact fun parent h => ⟨h.selected, h.excluded⟩
  case branch => exact fun left h => ⟨h.selected, h.excluded⟩
  case edit =>
    intro f t r c e changes ht asks single h
    cases asks with
    | select found => exact h.select Tree.target_of_column found
    | exclude found => exact h.exclude found
    | aggregate found => exact h.aggregate (t.columnOption_eq r.node _ ▸ found)
    -- A call for several columns is not a single change, unless it is for none.
    | @selectAll targets => cases targets <;> simp [Change.singles] at single
    | @excludeAll targets => cases targets <;> simp [Change.singles] at single
    | _ => exact h.skip rfl rfl rfl rfl

end QueryForest
