import QueryForest.Proofs.Forest.Projection
import QueryForest.Proofs.Tree.Implicit

set_option autoImplicit false

/-!
# When a node falls back on its columns

A node of which no result is left that was asked for stands for all its columns (`Tree.standing`), and one
with results brings these alone: that is the rule (`Tree.ruled`). The root keeps to it. A fetched join
only looks at the columns that were asked for. When nothing is left on it but aggregates, it brings all
its columns behind them (`Tree.contribution`), and for nodes that have columns this is the only departure
from the rule (`contributions_run`).
-/

namespace QueryForest

open Sql (Expr Select)

/-! ## The rule -/

namespace Tree

variable {t : Tree} {v root : NodeId} {isRoot : Bool} {changes : List Change}

/-- The columns that were asked for on a node, without those that are excluded. -/
def wantedColumns (t : Tree) (v : NodeId) (changes : List Change) : List Expr :=
  ((firsts [] (askedIn changes)).filter Asked.isColumn).filterMap
    ((t.node v).askedExpr? (t.column v) (exclusions (t.column v) changes))

/-- All columns of a node, without those that are excluded: the mapped ones in the order of their
declaration, or a wildcard for those of a query in the place of a table, if none of them is excluded. -/
def standing (t : Tree) (v : NodeId) (changes : List Change) : List Expr :=
  let excluded := exclusions (t.column v) changes
  match (t.node v).source with
  | .entity e =>
    (((t.mappings.columns? e).getD []).filter fun c => !(c.name ∈ excluded)).map fun c =>
      (Expr.column (t.aliasOf v) c.name).underAlias
        (if (t.node v).result.propertyAsAlias then some c.property else none)
  | .query _ _ => if excluded = [] then [.wildcard (some (t.aliasOf v))] else []

/-- The rule: what is left of what was asked for on a node, or all its columns if nothing is. -/
def ruled (t : Tree) (v : NodeId) (changes : List Change) : List Expr :=
  if t.wanted v changes = [] then t.standing v changes else t.wanted v changes

/-- What a node brings into the columns of the query from `root`. -/
def contribution (t : Tree) (root v : NodeId) (changes : List Change) : List Expr :=
  if t.wanted v changes = [] then t.standing v changes
  else if v ≠ root ∧ t.wantedColumns v changes = [] then t.wanted v changes ++ t.standing v changes
  else t.wanted v changes

/-- A join departs from the rule when only aggregates are left on it and it has columns. -/
theorem contribution_eq_ruled_iff : t.contribution root v changes = t.ruled v changes ↔
    ¬ (v ≠ root ∧ t.wanted v changes ≠ [] ∧ t.wantedColumns v changes = [] ∧
      t.standing v changes ≠ []) := by
  unfold contribution ruled
  by_cases none : t.wanted v changes = []
  · simp [none]
  · rw [if_neg none, if_neg none]
    by_cases falls : v ≠ root ∧ t.wantedColumns v changes = []
    · simp [falls, none]
    · rw [if_neg falls]
      simp only [true_iff]
      exact fun ⟨join, _, columns, _⟩ => falls ⟨join, columns⟩

section Collected

variable (h : (t.node v).Collects (t.column v) changes)

include h

theorem excluded_eq_nil_iff : (t.node v).excluded = [] ↔ exclusions (t.column v) changes = [] := by
  simp only [List.eq_nil_iff_forall_not_mem, h.excluded]

/-- A node shows a column just when one is left of those that were asked for. -/
theorem hasVisibleColumn_eq_false_iff :
    (t.node v).hasVisibleColumn = false ↔ t.wantedColumns v changes = [] := by
  rw [← Bool.not_eq_true, Node.hasVisibleColumn_iff, wantedColumns, List.filterMap_eq_nil_iff]
  constructor
  · intro hidden a ha
    obtain ⟨asked, isColumn⟩ := List.mem_filter.mp ha
    obtain ⟨item, mem, makes⟩ := Outcome.forall₂_mem_left h.selected asked
    cases makes with
    | @column target aliasName c found =>
        have excluded : c.column ∈ exclusions (t.column v) changes := by
          by_contra kept
          exact hidden ⟨c, aliasName, mem, mt (h.excluded _).mp kept⟩
        simp [Node.askedExpr?, found, Except.toOption, excluded]
    | aggregate found => exact absurd isColumn Bool.false_ne_true
  · rintro none ⟨c, aliasName, mem, kept⟩
    obtain ⟨a, asked, makes⟩ := Outcome.forall₂_mem_right h.selected mem
    cases makes with
    | @column target _ _ found =>
        have nothing := none _ (List.mem_filter.mpr ⟨asked, rfl⟩)
        have left : c.column ∉ exclusions (t.column v) changes := mt (h.excluded _).mpr kept
        simp [Node.askedExpr?, found, Except.toOption, left] at nothing

/-- A node that falls back stands for all its columns. -/
theorem fallback_eq_standing : t.fallback (t.node v) isRoot
    = if (t.node v).isImplicit isRoot then t.standing v changes else [] := by
  unfold fallback standing
  split
  · cases (t.node v).source with
    | entity e =>
        cases known : t.mappings.columns? e with
        | none => simp only [known, Option.map_none, Option.getD_none, List.filter_nil, List.map_nil]
        | some all =>
            simp only [known, Option.map_some, Option.getD_some, Node.columnExprs, h.excluded]
            rfl
    | query q e =>
        simp only [List.isEmpty_iff, excluded_eq_nil_iff h]
        rfl
  · rfl

theorem contribution_eq : t.wanted v changes ++ t.fallback (t.node v) (v = root)
    = t.contribution root v changes := by
  have wanted : (t.node v).selectExprs = t.wanted v changes := h.selectExprs
  have implicit : (t.node v).isImplicit (v = root) = true ↔
      t.wanted v changes = [] ∨ (v ≠ root ∧ t.wantedColumns v changes = []) := by
    rw [Node.isImplicit_iff, wanted, decide_eq_false_iff_not, hasVisibleColumn_eq_false_iff h]
  rw [fallback_eq_standing h]
  unfold contribution
  by_cases none : t.wanted v changes = []
  · rw [if_pos (implicit.mpr (Or.inl none)), if_pos none, none, List.nil_append]
  · rw [if_neg none]
    by_cases falls : v ≠ root ∧ t.wantedColumns v changes = []
    · rw [if_pos (implicit.mpr (Or.inr falls)), if_pos falls]
    · rw [if_neg fun h => (implicit.mp h).elim none falls, if_neg falls, List.append_nil]

end Collected

end Tree

/-! ## Statements -/

namespace Forest

variable {r : NodeRef}

/-- **After every run the columns of the query of a node are the contributions of the root and the
fetched joins of its walk. Each of these nodes contributes what is left of what was asked for on it, or
all its columns when nothing is left, with one exception: a fetched join on which only aggregates are
left contributes its columns as well.** -/
theorem contributions_run {actions : List Action} (admitted : empty.admits actions)
    (hr : (empty.run actions).hasNode r) {s : Select} (made : (empty.run actions).select r = .ok s) :
    ∃ t, (empty.run actions).tree? r.tree = some t ∧
      s.columns = ((t.walk r.node).flatMap fun v =>
        if v = r.node ∨ (t.node v).fetch = true then
          t.contribution r.node v (changesIn actions r.tree v)
        else []) ∧
      ∀ v, t.contribution r.node v (changesIn actions r.tree v) = t.ruled v (changesIn actions r.tree v) ↔
        ¬ (v ≠ r.node ∧ t.wanted v (changesIn actions r.tree v) ≠ [] ∧
          t.wantedColumns v (changesIn actions r.tree v) = [] ∧
          t.standing v (changesIn actions r.tree v) ≠ []) := by
  have sound : (empty.run actions).Sound := Reachable.sound ⟨actions, admitted, rfl⟩
  obtain ⟨t, ht, small⟩ := hasNode_iff.mp hr
  have tree := sound.tree r.tree t ht
  have collects (v : NodeId) (hv : v < t.nodes.length) :
      (t.node v).Collects (t.column v) (changesIn actions r.tree v) :=
    told_run Node.collects_faithful admitted ht hv
  rw [sound.select_eq ht] at made
  refine ⟨t, ht, ?_, fun v => Tree.contribution_eq_ruled_iff⟩
  rw [(tree.select_projected small collects made).columns_eq, Tree.results]
  refine List.flatMap_congr fun v hv => ?_
  rw [Tree.contribution_eq (collects v (tree.walk_lt small hv))]

/-- An order with a customer who is fetched, and only counted. -/
def counted : List Action :=
  [.call (.root ⟨[("customer", ⟨"Customer", "customers", [⟨"id", "id", .long⟩, ⟨"name", "name", .string⟩]⟩)]⟩
      ⟨"order", "Order", "orders"⟩ (some "o") {}),
    .call (.change ⟨0, 0⟩ (.select (.column "id") none)),
    .call (.join ⟨0, 0⟩ ⟨"customer", "Customer", "customers"⟩ .inner (some "c")),
    .call (.change ⟨0, 1⟩ (.onWith (.column "customer_id") (.column "id"))),
    .call (.change ⟨0, 1⟩ (.fetch true)),
    .call (.change ⟨0, 1⟩ (.aggregate .count (some (.property "id")) {})),
    .call (.attach ⟨0, 1⟩)]

theorem contributions_run_counted : ∃ s t, (empty.run counted).select ⟨0, 0⟩ = .ok s ∧
    (empty.run counted).tree? 0 = some t ∧
    (s.columns = (t.walk 0).flatMap fun v =>
      if v = 0 ∨ (t.node v).fetch = true then t.contribution 0 v (changesIn counted 0 v) else []) ∧
    s.columns = [.column "o" "id", .call "COUNT" [.column "c" "id"] false false,
      .column "c" "id", .column "c" "name"] := by
  obtain ⟨s, made⟩ : ∃ s, (empty.run counted).select ⟨0, 0⟩ = .ok s := ⟨_, rfl⟩
  obtain ⟨t, ht, columns, -⟩ := @contributions_run ⟨0, 0⟩ counted (by decide) (by decide) s made
  refine ⟨s, t, made, ht, columns, ?_⟩
  obtain rfl := Except.ok.inj made
  rfl

/-- A fetched join that is only counted does not keep to the rule. -/
theorem not_ruled_counted : ∃ s t, (empty.run counted).select ⟨0, 0⟩ = .ok s ∧
    (empty.run counted).tree? 0 = some t ∧ s.columns ≠ (t.walk 0).flatMap fun v =>
      if v = 0 ∨ (t.node v).fetch = true then t.ruled v (changesIn counted 0 v) else [] := by
  refine ⟨_, _, rfl, rfl, fun same => ?_⟩
  exact absurd (congrArg List.length same) (by decide)

end Forest

end QueryForest
