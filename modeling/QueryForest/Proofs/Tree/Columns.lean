import QueryForest.Proofs.Tree.Projection

set_option autoImplicit false

/-!
# The columns of a query

The columns of a query come from its root and from the joins of its walk that are fetched. Each of
these nodes brings what was asked for on it (`Tree.wanted`), and when no column of that is left all
columns that it stands for (`Tree.fallback`). An excluded column is brought in neither way
(`Sound.select_projected`), and a query without any column fails (`Sound.select_empty`).
-/

namespace QueryForest

open Sql (Expr Select)

/-! ## Columns among expressions -/

/-- Whether an expression is a column of a table, under an alias of its own or not. -/
def Sql.Expr.IsColumnOf (e : Expr) (aliasName column : String) : Prop :=
  ∃ name, e = (Expr.column aliasName column).underAlias name

/-- An alias does not hide what stands under it. -/
theorem Sql.Expr.IsColumnOf.inj {aliasName aliasName' column column' : String} {name : Option String}
    (h : ((Expr.column aliasName column).underAlias name).IsColumnOf aliasName' column') :
    aliasName = aliasName' ∧ column = column' := by
  obtain ⟨name', same⟩ := h
  cases name <;> cases name' <;> simp_all [Expr.underAlias, Expr.column]

namespace Node

variable {n : Node}

/-- What a node can bring into a query. -/
inductive Offers (n : Node) : Expr → Prop
  | column {column : String} (aliasName : Option String) (kept : column ∉ n.excluded) :
      Offers n ((Expr.column n.aliasName column).underAlias aliasName)
  | aggregate (a : Aggregate) (aliasName : Option String) :
      Offers n ((n.aggregateExpr a).underAlias aliasName)
  | wildcard (kept : n.excluded = []) : Offers n (.wildcard (some n.aliasName))

/-- An aggregate is a call, also when it is rounded. -/
theorem aggregateExpr_call (n : Node) (a : Aggregate) :
    ∃ function args star distinct, n.aggregateExpr a = .call function args star distinct := by
  unfold aggregateExpr
  cases a.scale <;> cases a.column <;> exact ⟨_, _, _, _, rfl⟩

/-- A column among them belongs to the node and is not excluded. -/
theorem Offers.column_kept {e : Expr} (h : n.Offers e) {aliasName column : String}
    (isColumn : e.IsColumnOf aliasName column) : aliasName = n.aliasName ∧ column ∉ n.excluded := by
  cases h with
  | column name kept =>
      obtain ⟨rfl, rfl⟩ := isColumn.inj
      exact ⟨rfl, kept⟩
  | aggregate a name =>
      obtain ⟨name', same⟩ := isColumn
      obtain ⟨function, args, star, distinct, call⟩ := n.aggregateExpr_call a
      rw [call] at same
      cases name <;> cases name' <;> simp [Expr.underAlias, Expr.column] at same
  | wildcard kept =>
      obtain ⟨name', same⟩ := isColumn
      cases name' <;> simp [Expr.underAlias, Expr.column] at same

/-- A wildcard among them stands for the node, and nothing is excluded. -/
theorem Offers.wildcard_kept {q : Option String} (h : n.Offers (.wildcard q)) :
    q = some n.aliasName ∧ n.excluded = [] := by
  generalize same : Expr.wildcard q = e at h
  cases h with
  | column name kept => cases name <;> simp [Expr.underAlias, Expr.column] at same
  | aggregate a name =>
      obtain ⟨function, args, star, distinct, call⟩ := n.aggregateExpr_call a
      rw [call] at same
      cases name <;> simp [Expr.underAlias] at same
  | wildcard kept => exact ⟨Expr.wildcard.inj same, kept⟩

theorem selectExprs_offers {e : Expr} (he : e ∈ n.selectExprs) : n.Offers e := by
  obtain ⟨item, -, made⟩ := List.mem_filterMap.mp he
  cases item with
  | column c aliasName =>
      change (if c.column ∈ n.excluded then none else some _) = some e at made
      split at made
      · exact absurd made (by simp)
      · next kept =>
        obtain rfl := Option.some.inj made
        exact Offers.column _ kept
  | aggregate a =>
      obtain rfl := Option.some.inj made
      exact Offers.aggregate a _

theorem columnExprs_offers {columns : List Column} {e : Expr} (he : e ∈ n.columnExprs columns) :
    n.Offers e := by
  obtain ⟨c, mem, rfl⟩ := List.mem_map.mp he
  exact Offers.column _ (by simpa using (List.mem_filter.mp mem).2)

/-- What was asked for on a node and is not excluded, by the calls. -/
theorem Collects.selectExprs {look : Target → Except QueryError ColumnRef} {changes : List Change}
    (h : n.Collects look changes) : n.selectExprs
      = (firsts [] (askedIn changes)).filterMap (n.askedExpr? look (exclusions look changes)) := by
  have each (a : Asked) (item : SelectItem) (makes : a.Makes look item) :
      n.askedExpr? look (exclusions look changes) a = n.itemExpr? item := by
    cases makes with
    | column found =>
        simp only [askedExpr?, found, Except.toOption, Option.bind_some, ← h.excluded]
        rfl
    | aggregate found =>
        simp only [askedExpr?, found, Except.toOption, Option.map_some]
        rfl
  exact (Outcome.forall₂_filterMap h.selected each).symm

end Node

namespace Tree

variable {t : Tree} {n : Node} {isRoot : Bool} {v root : NodeId}
  {nested : NodeRef → Except QueryError Select}

/-! ## What a node brings -/

/-- All columns that a node stands for but those that are excluded, if it falls back on them. The
columns of a query in the place of a table are a wildcard, unless one of them is excluded. -/
def fallback (t : Tree) (n : Node) (isRoot : Bool) : List Expr :=
  if n.isImplicit isRoot then
    match n.source with
    | .entity e => ((t.mappings.columns? e).map n.columnExprs).getD []
    | .query _ _ => if n.excluded.isEmpty then [.wildcard (some n.aliasName)] else []
  else []

theorem projection_ok {columns : List Expr} (h : t.projection n isRoot = .ok columns) :
    columns = n.selectExprs ++ t.fallback n isRoot := by
  unfold projection at h
  unfold fallback
  split at h
  · next implicit =>
    rw [if_pos implicit]
    cases source : n.source with
    | entity e =>
        rw [source] at h
        obtain ⟨all, found, h⟩ := Outcome.bind_ok h
        obtain rfl := Except.ok.inj h
        unfold columnsOf at found
        split at found
        · next known =>
          obtain rfl := Except.ok.inj found
          simp only [known, Option.map_some, Option.getD_some]
        · exact absurd found (by simp)
    | query q e =>
        rw [source] at h
        exact (Except.ok.inj h).symm
  · next explicit =>
    rw [if_neg explicit, List.append_nil]
    exact (Except.ok.inj h).symm

theorem fallback_offers {e : Expr} (he : e ∈ t.fallback n isRoot) : n.Offers e := by
  unfold fallback at he
  split at he
  · cases source : n.source with
    | entity entity =>
        rw [source] at he
        cases known : t.mappings.columns? entity with
        | none => simp [known] at he
        | some all =>
            simp only [known, Option.map_some, Option.getD_some] at he
            exact Node.columnExprs_offers he
    | query q entity =>
        simp only [source] at he
        split at he
        · next kept =>
          obtain rfl := List.mem_singleton.mp he
          exact Node.Offers.wildcard (List.isEmpty_iff.mp kept)
        · exact absurd he List.not_mem_nil
  · exact absurd he List.not_mem_nil

/-- A node falls back on its columns when none that was asked for is left. -/
theorem fallback_implicit (h : t.fallback n isRoot ≠ []) {c : ColumnRef} {aliasName : Option String}
    (mem : .column c aliasName ∈ n.selected) : c.column ∈ n.excluded := by
  by_contra kept
  -- A selected column that is not excluded would be left, and the node would not fall back.
  have visible : n.hasVisibleColumn = true := List.any_eq_true.mpr ⟨_, mem, by simpa using kept⟩
  refine h ?_
  unfold fallback Node.isImplicit
  simp [visible]

/-- What was asked for on a node, as it stands in a query: in the order in which it was asked for at
first, without the columns that are excluded. -/
def wanted (t : Tree) (v : NodeId) (changes : List Change) : List Expr :=
  (firsts [] (askedIn changes)).filterMap
    ((t.node v).askedExpr? (t.column v) (exclusions (t.column v) changes))

/-- The columns of the query from `root`, when `changes` has the changes that were made on each node: the
root and the fetched joins bring what was asked for on them, in the order of the walk. -/
def results (t : Tree) (root : NodeId) (changes : NodeId → List Change) : List Expr :=
  (t.walk root).flatMap fun v =>
    if v = root ∨ (t.node v).fetch = true then
      t.wanted v (changes v) ++ t.fallback (t.node v) (v = root)
    else []

/-- What can be told of the columns of the query from `root` by the changes that were made on each node.
-/
structure Projected (t : Tree) (root : NodeId) (changes : NodeId → List Change)
    (columns : List Expr) : Prop where
  /-- Every call for a result has found its column. -/
  found : ∀ v ∈ t.walk root, ∀ a ∈ askedIn (changes v), ∃ item, a.Makes (t.column v) item
  columns_eq : columns = t.results root changes
  /-- An aggregate that was asked for on the root or a fetched join is there, whatever is excluded. -/
  aggregates : ∀ v ∈ t.walk root, v = root ∨ (t.node v).fetch = true →
    ∀ function target options, .aggregate function target options ∈ askedIn (changes v) →
      ∃ c, lookOption (t.column v) target = .ok c ∧
        ((t.node v).aggregateExpr (Build.makeAggregate function c options)).underAlias
          options.aliasName ∈ columns
  /-- A node falls back on its columns only when all columns that were asked for are excluded. -/
  fallback : ∀ v ∈ t.walk root, t.fallback (t.node v) (v = root) ≠ [] →
    ∀ target aliasName, .column target aliasName ∈ askedIn (changes v) →
      ∃ c, t.column v target = .ok c ∧ c.column ∈ exclusions (t.column v) (changes v)
  /-- No column that is excluded at its node is there, under an alias or not. -/
  excluded : ∀ v ∈ t.walk root, ∀ column ∈ exclusions (t.column v) (changes v),
    ∀ e ∈ columns, ¬ e.IsColumnOf (t.aliasOf v) column
  /-- A wildcard is there only for a node at which nothing is excluded. -/
  wildcards : ∀ q, .wildcard q ∈ columns →
    ∃ v ∈ t.walk root, q = some (t.aliasOf v) ∧ exclusions (t.column v) (changes v) = []
  nonempty : columns ≠ []

/-- The columns of a query are those that its nodes bring. -/
theorem Assembled.columns_eq {rootPart : Part} {joined : List (Part × Sql.JoinItem)}
    (h : t.Assembled nested root rootPart joined) (sound : t.Sound) (hroot : root < t.nodes.length) :
    (assemble (t.node root) rootPart joined).columns = (t.walk root).flatMap fun v =>
      if v = root ∨ (t.node v).fetch = true then
        (t.node v).selectExprs ++ t.fallback (t.node v) (v = root)
      else [] := by
  refine (Outcome.forall₂_flatMap (h.parts sound hroot) fun v p made => ?_).symm
  obtain ⟨shown, hidden, -⟩ := part_ok made
  have shows : Shows (t.node v) (v = root) ↔ v = root ∨ (t.node v).fetch = true :=
    or_congr_left decide_eq_true_iff
  split
  · next brings => exact (projection_ok (shown (shows.mpr brings))).symm
  · next bare => exact (hidden (mt shows.mp bare)).symm

/-- What the nodes of a walk bring is what was asked for on them. -/
theorem Assembled.columns_eq_results {rootPart : Part} {joined : List (Part × Sql.JoinItem)}
    (h : t.Assembled nested root rootPart joined) (sound : t.Sound) (hroot : root < t.nodes.length)
    {changes : NodeId → List Change}
    (collects : ∀ v < t.nodes.length, (t.node v).Collects (t.column v) (changes v)) :
    (assemble (t.node root) rootPart joined).columns = t.results root changes := by
  rw [h.columns_eq sound hroot]
  refine List.flatMap_congr fun v hv => ?_
  have wanted : (t.node v).selectExprs = t.wanted v (changes v) :=
    (collects v (sound.walk_lt hroot hv)).selectExprs
  rw [wanted]

/-- **The columns of a query are those that were asked for and are not excluded.** -/
theorem Sound.select_projected (sound : t.Sound) (hroot : root < t.nodes.length)
    {changes : NodeId → List Change}
    (collects : ∀ v < t.nodes.length, (t.node v).Collects (t.column v) (changes v)) {s : Select}
    (h : t.select nested root = .ok s) : t.Projected root changes s.columns := by
  obtain ⟨-, rootPart, joined, assembled, rfl, nonempty⟩ := sound.select_ok hroot h
  have whole := assembled.columns_eq sound hroot
  have collected {v : NodeId} (hv : v ∈ t.walk root) := collects v (sound.walk_lt hroot hv)
  -- Every column is offered by a node of the walk, and two of these never have one alias.
  have offered {e : Expr} (he : e ∈ (assemble (t.node root) rootPart joined).columns) :
      ∃ w ∈ t.walk root, (t.node w).Offers e := by
    rw [whole] at he
    obtain ⟨w, hw, mem⟩ := List.mem_flatMap.mp he
    split at mem
    · rcases List.mem_append.mp mem with asked | other
      · exact ⟨w, hw, Node.selectExprs_offers asked⟩
      · exact ⟨w, hw, fallback_offers other⟩
    · exact absurd mem List.not_mem_nil
  have unique {v w : NodeId} (hv : v ∈ t.walk root) (hw : w ∈ t.walk root)
      (same : t.aliasOf v = t.aliasOf w) : v = w :=
    List.inj_on_of_nodup_map (sound.nodup_aliases hroot) hv hw same
  constructor
  case found =>
    intro v hv a ha
    obtain ⟨item, -, makes⟩ := (collected hv).found ha
    exact ⟨item, makes⟩
  case columns_eq => exact assembled.columns_eq_results sound hroot collects
  case aggregates =>
    intro v hv shown function target options asked
    obtain ⟨item, mem, makes⟩ := (collected hv).found asked
    cases makes with
    | @aggregate _ _ _ c found =>
        refine ⟨c, found, ?_⟩
        rw [whole]
        refine List.mem_flatMap.mpr ⟨v, hv, ?_⟩
        rw [if_pos shown]
        exact List.mem_append_left _ (List.mem_filterMap.mpr ⟨_, mem, rfl⟩)
  case fallback =>
    intro v hv falls target aliasName asked
    obtain ⟨item, mem, makes⟩ := (collected hv).found asked
    cases makes with
    | @column _ _ c found =>
        exact ⟨c, found, ((collected hv).excluded _).mp (fallback_implicit falls mem)⟩
  case excluded =>
    intro v hv column hcolumn e he isColumn
    -- The node that offers the column has the alias of `v`, so that it is `v`.
    obtain ⟨w, hw, offers⟩ := offered he
    obtain ⟨same, kept⟩ := offers.column_kept isColumn
    obtain rfl := unique hv hw same
    exact kept (((collected hv).excluded column).mpr hcolumn)
  case wildcards =>
    intro q he
    obtain ⟨w, hw, offers⟩ := offered he
    obtain ⟨rfl, kept⟩ := offers.wildcard_kept
    refine ⟨w, hw, rfl, List.eq_nil_iff_forall_not_mem.mpr fun column mem => ?_⟩
    have excluded := ((collected hw).excluded column).mpr mem
    rw [kept] at excluded
    exact absurd excluded List.not_mem_nil
  case nonempty => exact nonempty

/-- **A query of which no column is left fails for that.** -/
theorem Sound.select_empty (sound : t.Sound) (hroot : root < t.nodes.length) (complete : t.Complete)
    {changes : NodeId → List Change}
    (collects : ∀ v < t.nodes.length, (t.node v).Collects (t.column v) (changes v))
    (parts : ∀ v ∈ t.walk root, ∃ p, t.part nested (t.node v) (v = root) = .ok p)
    (none : t.results root changes = []) :
    t.select nested root = .error (.emptyProjection (t.aliasOf root)) := by
  obtain ⟨rootPart, joined, assembled, finished⟩ := sound.select_finish hroot complete parts
  have empty : (assemble (t.node root) rootPart joined).columns = [] := by
    rw [assembled.columns_eq_results sound hroot collects, none]
  rw [finished, finish, empty]
  rfl

end Tree

end QueryForest
