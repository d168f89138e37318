import QueryForest.Proofs.Outcome
import QueryForest.Proofs.Tree.Nodes
import QueryForest.Tree.Select

set_option autoImplicit false

/-!
# The parts of a query

When a node can be written, and what is known of its part of the query then. A part fails with an
error of a nested query, or because the columns of an entity are asked for that has no mapping.
-/

namespace QueryForest

open Sql (Select)

variable {nested : NodeRef → Except QueryError Select}

/-! ## Filters and sources -/

namespace Node

variable {n : Node}

/-- A filter that is written without another query. -/
theorem filterExpr_plain {p : Filter} (plain : p.query? = none) :
    ∃ e, n.filterExpr nested p = .ok e := by
  cases p with
  | inQuery => exact absurd plain (by simp [Filter.query?])
  | existsQuery => exact absurd plain (by simp [Filter.query?])
  | inList c values negated => cases values <;> exact ⟨_, rfl⟩
  | compare | isNull | outer => exact ⟨_, rfl⟩

theorem exists_filterExpr {p : Filter} :
    (∃ e, n.filterExpr nested p = .ok e) ↔ ∀ q, p.query? = some q → ∃ s, nested q = .ok s := by
  cases hq : p.query? with
  | none => exact ⟨fun _ q h => absurd h (by simp), fun _ => filterExpr_plain hq⟩
  | some q =>
      constructor
      · rintro ⟨e, he⟩ q' same
        obtain rfl := Option.some.inj same
        cases p with
        | inQuery c query negated =>
            obtain ⟨s, hs, -⟩ := Outcome.bind_ok he
            exact ⟨s, Option.some.inj hq ▸ hs⟩
        | existsQuery query negated =>
            obtain ⟨s, hs, -⟩ := Outcome.bind_ok he
            exact ⟨s, Option.some.inj hq ▸ hs⟩
        | compare | inList | isNull | outer => exact absurd hq (by simp [Filter.query?])
      · intro each
        obtain ⟨s, hs⟩ := each q rfl
        cases p with
        | inQuery c query negated =>
            obtain rfl : query = q := Option.some.inj hq
            exact ⟨_, by rw [filterExpr, hs]; rfl⟩
        | existsQuery query negated =>
            obtain rfl : query = q := Option.some.inj hq
            exact ⟨_, by rw [filterExpr, hs]; rfl⟩
        | compare | inList | isNull | outer => exact absurd hq (by simp [Filter.query?])

theorem filterExpr_error {p : Filter} {e : QueryError} (h : n.filterExpr nested p = .error e) :
    ∃ q, p.query? = some q ∧ nested q = .error e := by
  cases p with
  | inQuery c query negated =>
      rcases Outcome.bind_error h with failed | ⟨s, -, made⟩
      · exact ⟨query, rfl, failed⟩
      · exact absurd made (by simp [pure, Except.pure])
  | existsQuery query negated =>
      rcases Outcome.bind_error h with failed | ⟨s, -, made⟩
      · exact ⟨query, rfl, failed⟩
      · exact absurd made (by simp [pure, Except.pure])
  | inList c values negated => cases values <;> exact absurd h (by simp [filterExpr])
  | compare | isNull | outer => exact absurd h (by simp [filterExpr])

theorem exists_tableSource :
    (∃ s, n.tableSource nested = .ok s) ↔ ∀ q, n.source.query? = some q → ∃ s, nested q = .ok s := by
  unfold tableSource
  cases n.source with
  | entity e => exact ⟨fun _ q h => absurd h (by simp [NodeSource.query?]), fun _ => ⟨_, rfl⟩⟩
  | query query e =>
      constructor
      · rintro ⟨source, hs⟩ q same
        obtain rfl : query = q := Option.some.inj same
        obtain ⟨s, hs, -⟩ := Outcome.bind_ok hs
        exact ⟨s, hs⟩
      · intro each
        obtain ⟨s, hs⟩ := each query rfl
        exact ⟨.select s, by simp only [hs]; rfl⟩

theorem tableSource_error {e : QueryError} (h : n.tableSource nested = .error e) :
    ∃ q, n.source.query? = some q ∧ nested q = .error e := by
  unfold tableSource at h
  cases hs : n.source with
  | entity entity =>
      rw [hs] at h
      exact absurd h (by simp)
  | query query entity =>
      rw [hs] at h
      rcases Outcome.bind_error h with failed | ⟨s, -, made⟩
      · exact ⟨query, rfl, failed⟩
      · exact absurd made (by simp [pure, Except.pure])

end Node

/-! ## Parts -/

namespace Tree

variable {t : Tree} {n : Node} {isRoot : Bool} {p : Part} {e : QueryError}

/-- Whether a node brings its results into the query. -/
def Shows (n : Node) (isRoot : Bool) : Prop := isRoot = true ∨ n.fetch = true

theorem shows_iff : (isRoot || n.fetch) = true ↔ Shows n isRoot := Bool.or_eq_true_iff

theorem projection_error (h : t.projection n isRoot = .error e) :
    ∃ entity, e = .unresolvedProperty entity "*" := by
  unfold projection at h
  split at h
  · split at h
    · next entity _ =>
      rcases Outcome.bind_error h with failed | ⟨columns, -, made⟩
      · unfold columnsOf at failed
        split at failed
        · exact absurd failed (by simp)
        · exact ⟨entity.name, (Except.error.inj failed).symm⟩
      · exact absurd made (by simp [pure, Except.pure])
    · exact absurd h (by simp)
  · exact absurd h (by simp)

/-- The results that a node brings into the query, if it brings any. -/
def shownColumns (t : Tree) (n : Node) (isRoot : Bool) : Except QueryError (List Sql.Expr) :=
  if isRoot || n.fetch then t.projection n isRoot else .ok []

/-- The steps of `part`. -/
theorem part_eq : t.part nested n isRoot = do
    let columns ← t.shownColumns n isRoot
    let predicates ← n.filters.mapM (n.filterExpr nested)
    let source ← n.tableSource nested
    return { columns
             groups := if isRoot || n.fetch then n.groupExprs else []
             having := if isRoot || n.fetch then n.havingExprs else []
             order := if isRoot || n.fetch then n.orderItems else []
             predicates, source } := by
  unfold part shownColumns
  cases isRoot || n.fetch <;> rfl

/-- What the steps of `part` have made. -/
theorem part_ok (h : t.part nested n isRoot = .ok p) :
    (Shows n isRoot → t.projection n isRoot = .ok p.columns) ∧
    (¬ Shows n isRoot → p.columns = []) ∧
    p.groups = (if isRoot || n.fetch then n.groupExprs else []) ∧
    p.having = (if isRoot || n.fetch then n.havingExprs else []) ∧
    p.order = (if isRoot || n.fetch then n.orderItems else []) ∧
    n.filters.mapM (n.filterExpr nested) = .ok p.predicates ∧
    n.tableSource nested = .ok p.source := by
  rw [part_eq] at h
  obtain ⟨columns, projected, h⟩ := Outcome.bind_ok h
  obtain ⟨predicates, filtered, h⟩ := Outcome.bind_ok h
  obtain ⟨source, found, h⟩ := Outcome.bind_ok h
  obtain rfl := Except.ok.inj h
  refine ⟨fun shown => ?_, fun hidden => ?_, rfl, rfl, rfl, filtered, found⟩
  · rwa [shownColumns, if_pos (shows_iff.mpr shown)] at projected
  · rw [shownColumns, if_neg (mt shows_iff.mp hidden)] at projected
    exact (Except.ok.inj projected).symm

/-- **A node can be written just when its results can, and the queries that it nests.** -/
theorem exists_part : (∃ p, t.part nested n isRoot = .ok p) ↔
    (Shows n isRoot → ∃ columns, t.projection n isRoot = .ok columns) ∧
      ∀ q ∈ n.queries, ∃ s, nested q = .ok s := by
  constructor
  · rintro ⟨p, hp⟩
    obtain ⟨shown, -, -, -, -, filtered, found⟩ := part_ok hp
    refine ⟨fun h => ⟨p.columns, shown h⟩, fun q hq => ?_⟩
    rcases Node.mem_queries.mp hq with source | ⟨predicate, mem, query⟩
    · exact Node.exists_tableSource.mp ⟨p.source, found⟩ q source
    · exact Node.exists_filterExpr.mp (Outcome.exists_mapM_ok.mp ⟨_, filtered⟩ predicate mem) q query
  · rintro ⟨shown, queries⟩
    obtain ⟨columns, projected⟩ : ∃ columns, t.shownColumns n isRoot = .ok columns := by
      unfold shownColumns
      split
      · next h => exact shown (shows_iff.mp h)
      · exact ⟨[], rfl⟩
    obtain ⟨predicates, filtered⟩ : ∃ predicates,
        n.filters.mapM (n.filterExpr nested) = .ok predicates := by
      refine Outcome.exists_mapM_ok.mpr fun predicate mem => Node.exists_filterExpr.mpr fun q query => ?_
      exact queries q (Node.mem_queries.mpr (Or.inr ⟨predicate, mem, query⟩))
    obtain ⟨source, found⟩ : ∃ source, n.tableSource nested = .ok source :=
      Node.exists_tableSource.mpr fun q query =>
        queries q (Node.mem_queries.mpr (Or.inl query))
    rw [part_eq, projected, filtered, found]
    exact ⟨_, rfl⟩

theorem part_error (h : t.part nested n isRoot = .error e) :
    (∃ entity, e = .unresolvedProperty entity "*") ∨ ∃ q ∈ n.queries, nested q = .error e := by
  rw [part_eq] at h
  rcases Outcome.bind_error h with failed | ⟨columns, -, h⟩
  · unfold shownColumns at failed
    split at failed
    · exact Or.inl (projection_error failed)
    · exact absurd failed (by simp)
  · rcases Outcome.bind_error h with failed | ⟨predicates, -, h⟩
    · obtain ⟨predicate, mem, failed⟩ := Outcome.mapM_error failed
      obtain ⟨q, query, failed⟩ := Node.filterExpr_error failed
      exact Or.inr ⟨q, Node.mem_queries.mpr (Or.inr ⟨predicate, mem, query⟩), failed⟩
    · rcases Outcome.bind_error h with failed | ⟨source, -, made⟩
      · obtain ⟨q, query, failed⟩ := Node.tableSource_error failed
        exact Or.inr ⟨q, Node.mem_queries.mpr (Or.inl query), failed⟩
      · exact absurd made (by simp [pure, Except.pure])

/-- A part only depends on the queries that its node nests. -/
theorem part_congr {nested' : NodeRef → Except QueryError Select}
    (same : ∀ q ∈ n.queries, nested q = nested' q) :
    t.part nested n isRoot = t.part nested' n isRoot := by
  have filters : n.filters.mapM (n.filterExpr nested) = n.filters.mapM (n.filterExpr nested') := by
    refine Outcome.mapM_congr fun predicate mem => ?_
    have query {q : NodeRef} (hq : predicate.query? = some q) : nested q = nested' q :=
      same q (Node.mem_queries.mpr (Or.inr ⟨predicate, mem, hq⟩))
    cases predicate with
    | inQuery c q negated => simp only [Node.filterExpr, query rfl]
    | existsQuery q negated => simp only [Node.filterExpr, query rfl]
    | inList c values negated => cases values <;> rfl
    | compare | isNull | outer => rfl
  have source : n.tableSource nested = n.tableSource nested' := by
    have query {q : NodeRef} (hq : n.source.query? = some q) : nested q = nested' q :=
      same q (Node.mem_queries.mpr (Or.inl hq))
    unfold Node.tableSource
    cases hs : n.source with
    | entity e => rfl
    | query q e => simp only [query (congrArg NodeSource.query? hs)]
  rw [part_eq, part_eq, filters, source]

end Tree

end QueryForest
