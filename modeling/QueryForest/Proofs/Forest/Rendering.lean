import QueryForest.Proofs.Forest.Runs
import QueryForest.Proofs.Forest.Nesting

set_option autoImplicit false

/-!
# When statements can be written

`Renders` says of a node when its statement can be written, by what can be seen of the trees alone:
their joins, the results that were asked for and the mappings. It goes on to the nested queries of
the nodes of the walk. `render_cases`: the statement of a node is written just then, and otherwise
the error is one of three kinds.
-/

namespace QueryForest

open Sql (Select Dialect)

/-! ## Results -/

/-- Whether an item of the results is left over by what is excluded. -/
def Node.Keeps (n : Node) : SelectItem → Prop
  | .column c _ => c.column ∉ n.excluded
  | .aggregate _ => True

theorem Node.isSome_itemExpr? {n : Node} {item : SelectItem} :
    (n.itemExpr? item).isSome ↔ n.Keeps item := by
  cases item with
  | column c aliasName =>
      show (if c.column ∈ n.excluded then none else some _).isSome ↔ c.column ∉ n.excluded
      split
      · next excluded => exact ⟨fun h => absurd h (by simp), fun kept => absurd excluded kept⟩
      · next kept => exact ⟨fun _ => kept, fun _ => rfl⟩
  | aggregate a => simp [itemExpr?, Keeps]

theorem Node.selectExprs_ne_nil {n : Node} :
    n.selectExprs ≠ [] ↔ ∃ item ∈ n.selected, n.Keeps item := by
  unfold selectExprs
  rw [ne_eq, List.filterMap_eq_nil_iff]
  simp only [← isSome_itemExpr?, not_forall, exists_prop, Option.isSome_iff_ne_none, ne_eq]

namespace Tree

variable {t : Tree} {n : Node} {isRoot : Bool}

/-- Whether a node that falls back on the columns of its entity falls back on a mapped one. -/
def Known (t : Tree) (n : Node) (isRoot : Bool) : Prop :=
  n.isImplicit isRoot → ∀ e, n.source = .entity e → (t.mappings.columns? e).isSome

/-- How a node comes by a column of the result. -/
inductive Brings (t : Tree) (n : Node) (isRoot : Bool) : Prop
  /-- It was asked for. -/
  | item {i : SelectItem} (mem : i ∈ n.selected) (kept : n.Keeps i)
  /-- It is one of the columns of the entity, in place of a list of results. -/
  | column {e : Entity} {columns : List Column} {c : Column} (implicit : n.isImplicit isRoot)
      (source : n.source = .entity e) (known : t.mappings.columns? e = some columns)
      (mem : c ∈ columns) (kept : c.name ∉ n.excluded)
  /-- It is among all columns of a query in the place of a table. -/
  | wildcard {q : NodeRef} {e : Entity} (implicit : n.isImplicit isRoot)
      (source : n.source = .query q e) (kept : n.excluded = [])

theorem exists_columnsOf {e : Entity} :
    (∃ columns, t.columnsOf e = .ok columns) ↔ (t.mappings.columns? e).isSome := by
  unfold columnsOf
  cases t.mappings.columns? e <;> simp

theorem exists_projection :
    (∃ columns, t.projection n isRoot = .ok columns) ↔ t.Known n isRoot := by
  unfold projection Known
  by_cases implicit : n.isImplicit isRoot
  · cases hs : n.source with
    | entity e =>
        simp only [implicit, if_true, true_imp_iff]
        constructor
        · rintro ⟨columns, h⟩ e' same
          obtain rfl := NodeSource.entity.inj same
          obtain ⟨all, found, -⟩ := Outcome.bind_ok h
          exact exists_columnsOf.mp ⟨all, found⟩
        · intro known
          obtain ⟨all, found⟩ := exists_columnsOf.mpr (known e rfl)
          exact ⟨n.selectExprs ++ n.columnExprs all, by rw [found]; rfl⟩
    | query q e => simp [implicit]
  · simp [implicit]

theorem columnExprs_ne_nil {columns : List Column} :
    n.columnExprs columns ≠ [] ↔ ∃ c ∈ columns, c.name ∉ n.excluded := by
  simp [Node.columnExprs]

theorem columnsOf_ok {e : Entity} {all : List Column} (h : t.columnsOf e = .ok all) :
    t.mappings.columns? e = some all := by
  unfold columnsOf at h
  split at h
  · next known => rw [known, Except.ok.inj h]
  · exact absurd h (by simp)

/-- An entity brings the columns that were asked for, and its own when there are none to be seen. -/
theorem brings_entity {e : Entity} {all : List Column} (source : n.source = .entity e)
    (implicit : n.isImplicit isRoot) (known : t.mappings.columns? e = some all) :
    n.selectExprs ++ n.columnExprs all ≠ [] ↔ t.Brings n isRoot := by
  rw [ne_eq, List.append_eq_nil_iff, Classical.not_and_iff_not_or_not]
  constructor
  · rintro (asked | listed)
    · obtain ⟨item, mem, kept⟩ := Node.selectExprs_ne_nil.mp asked
      exact Brings.item mem kept
    · obtain ⟨c, mem, kept⟩ := columnExprs_ne_nil.mp listed
      exact Brings.column implicit source known mem kept
  · rintro (⟨mem, kept⟩ | ⟨-, source', known', mem, kept⟩ | ⟨-, source', -⟩)
    · exact Or.inl (Node.selectExprs_ne_nil.mpr ⟨_, mem, kept⟩)
    · obtain rfl := NodeSource.entity.inj (source.symm.trans source')
      obtain rfl := Option.some.inj (known.symm.trans known')
      exact Or.inr (columnExprs_ne_nil.mpr ⟨_, mem, kept⟩)
    · exact absurd (source.symm.trans source') (by simp)

/-- A query in the place of a table brings the columns that were asked for, and all of its own when
there are none to be seen and none is excluded. -/
theorem brings_query {q : NodeRef} {e : Entity} (source : n.source = .query q e)
    (implicit : n.isImplicit isRoot) :
    n.selectExprs ++ (if n.excluded.isEmpty then [Sql.Expr.wildcard (some n.aliasName)] else []) ≠ []
      ↔ t.Brings n isRoot := by
  rw [ne_eq, List.append_eq_nil_iff, Classical.not_and_iff_not_or_not]
  constructor
  · rintro (asked | all)
    · obtain ⟨item, mem, kept⟩ := Node.selectExprs_ne_nil.mp asked
      exact Brings.item mem kept
    · have kept : n.excluded = [] := by
        by_contra excluded
        rw [if_neg (mt List.isEmpty_iff.mp excluded)] at all
        exact all rfl
      exact Brings.wildcard implicit source kept
  · rintro (⟨mem, kept⟩ | ⟨-, source', -⟩ | ⟨-, -, kept⟩)
    · exact Or.inl (Node.selectExprs_ne_nil.mpr ⟨_, mem, kept⟩)
    · exact absurd (source.symm.trans source') (by simp)
    · rw [kept]
      exact Or.inr (List.cons_ne_nil _ _)

/-- A node brings a column just when its results are not empty. -/
theorem projection_ne_nil {columns : List Sql.Expr} (h : t.projection n isRoot = .ok columns) :
    columns ≠ [] ↔ t.Brings n isRoot := by
  unfold projection at h
  by_cases implicit : n.isImplicit isRoot
  · rw [if_pos implicit] at h
    split at h
    · next e source =>
      obtain ⟨all, found, h⟩ := Outcome.bind_ok h
      obtain rfl := Except.ok.inj h
      exact brings_entity source implicit (columnsOf_ok found)
    · next q e source =>
      obtain rfl := Except.ok.inj h
      exact brings_query source implicit
  · rw [if_neg implicit] at h
    obtain rfl := Except.ok.inj h
    rw [Node.selectExprs_ne_nil]
    constructor
    · rintro ⟨item, mem, kept⟩
      exact Brings.item mem kept
    · rintro (⟨mem, kept⟩ | ⟨implicit', -⟩ | ⟨implicit', -⟩)
      · exact ⟨_, mem, kept⟩
      · exact absurd implicit' implicit
      · exact absurd implicit' implicit

end Tree

namespace Forest

variable {f : Forest} {r : NodeRef}

/-- Whether the statement of a node can be written. -/
inductive Renders (f : Forest) : NodeRef → Prop
  | intro {r : NodeRef} {t : Tree} (ht : f.tree? r.tree = some t) (complete : t.Complete)
      (known : ∀ v ∈ t.walk r.node, Tree.Shows (t.node v) (v = r.node) →
        t.Known (t.node v) (v = r.node))
      (brings : ∃ v ∈ t.walk r.node, Tree.Shows (t.node v) (v = r.node) ∧
        t.Brings (t.node v) (v = r.node))
      (nested : ∀ v ∈ t.walk r.node, ∀ q ∈ (t.node v).queries, Renders f q) : Renders f r

/-- **The query of a node can be written just when `Renders` says so.** -/
theorem Sound.exists_select (h : f.Sound) (hr : f.hasNode r) :
    (∃ s, f.select r = .ok s) ↔ f.Renders r := by
  refine h.nested_induction ?_ hr
  intro r t ht small ih
  rw [h.select_eq ht, (h.tree r.tree t ht).exists_select small]
  constructor
  · rintro ⟨complete, shown, ⟨v, hv, shows, columns, made, some⟩, nested⟩
    refine Renders.intro ht complete (fun v hv shows => ?_) ?_ (fun v hv q hq => ?_)
    · exact Tree.exists_projection.mp (shown v hv shows)
    · exact ⟨v, hv, shows, (Tree.projection_ne_nil made).mp some⟩
    · exact (ih q (Tree.mem_queries_of_node hq)).mp (nested v hv q hq)
  · intro renders
    obtain ⟨ht', complete, known, ⟨v, hv, shows, brings⟩, nested⟩ := renders
    obtain rfl := Option.some.inj (ht.symm.trans ht')
    refine ⟨complete, fun v hv shows => ?_, ?_, fun v hv q hq => ?_⟩
    · exact Tree.exists_projection.mpr (known v hv shows)
    · obtain ⟨columns, made⟩ := Tree.exists_projection.mpr (known v hv shows)
      exact ⟨v, hv, shows, columns, made, (Tree.projection_ne_nil made).mpr brings⟩
    · exact (ih q (Tree.mem_queries_of_node hq)).mpr (nested v hv q hq)

/-- **The query of a node fails in one of three ways.** -/
theorem Sound.select_error (h : f.Sound) (hr : f.hasNode r) {e : QueryError}
    (failed : f.select r = .error e) : (∃ aliasName gap, e = .incompleteJoin aliasName gap) ∨
      (∃ entity, e = .unresolvedProperty entity "*") ∨ ∃ aliasName, e = .emptyProjection aliasName := by
  revert failed
  refine h.nested_induction ?_ hr
  intro r t ht small ih failed
  rw [h.select_eq ht] at failed
  rcases (h.tree r.tree t ht).select_error small failed with join | column | none | nested
  · exact Or.inl join
  · exact Or.inr (Or.inl column)
  · exact Or.inr (Or.inr none)
  · obtain ⟨v, -, q, hq, failed⟩ := nested
    exact ih q (Tree.mem_queries_of_node hq) failed

theorem render_error {d : Dialect} {e : QueryError} :
    f.render d r = .error e ↔ f.select r = .error e := by
  unfold render
  cases f.select r with
  | error e' => exact ⟨fun h => congrArg _ (Except.error.inj h), fun h => congrArg _ (Except.error.inj h)⟩
  | ok s => exact ⟨fun h => absurd h (by simp [bind, Except.bind, pure, Except.pure]), fun h => absurd h (by simp)⟩

theorem exists_render {d : Dialect} :
    (∃ statement, f.render d r = .ok statement) ↔ ∃ s, f.select r = .ok s := by
  unfold render
  cases f.select r with
  | error e => exact ⟨fun ⟨_, h⟩ => absurd h (by simp [bind, Except.bind]), fun ⟨_, h⟩ => absurd h (by simp)⟩
  | ok s => exact ⟨fun _ => ⟨s, rfl⟩, fun _ => ⟨_, rfl⟩⟩

/-- **In every forest that callers can make, the statement of a node is written just when `Renders`
says so. Otherwise a join is incomplete, the columns of an entity are not known, or there is nothing
to select. The aliases of a walk never repeat, and once the joins of a tree are complete each of
them can be written, so that no other error is left.** -/
theorem render_cases (h : f.Reachable) (hr : f.hasNode r) (d : Dialect) :
    ((∃ statement, f.render d r = .ok statement) ↔ f.Renders r) ∧
    (∀ e, f.render d r = .error e → (∃ aliasName gap, e = .incompleteJoin aliasName gap) ∨
      (∃ entity property, e = .unresolvedProperty entity property) ∨
      ∃ aliasName, e = .emptyProjection aliasName) ∧
    ∀ i t, f.tree? i = some t → ∀ id < t.nodes.length,
      Text.firstRepeated? [] ((t.walk id).map t.aliasOf) = none ∧
      (t.incompleteJoin? = none → ∀ join ∈ (t.walk id).tail, ∀ source,
        ∃ item, t.joinItem (t.node join) source = .ok item) := by
  refine ⟨exists_render.trans (h.sound.exists_select hr), fun e failed => ?_, fun i t ht id hid => ?_⟩
  · rcases h.sound.select_error hr (render_error.mp failed) with join | ⟨entity, column⟩ | none
    · exact Or.inl join
    · exact Or.inr (Or.inl ⟨entity, "*", column⟩)
    · exact Or.inr (Or.inr none)
  · have tree := h.sound.tree i t ht
    refine ⟨tree.firstRepeated?_walk hid, fun complete join hjoin source => ?_⟩
    exact (Tree.incompleteJoin?_eq_none_iff.mp complete).exists_joinItem
      (tree.isJoin_of_mem_tail hid hjoin) source

/-- A query with a join and with another query in a filter. -/
def filtered : List Action :=
  [.call (.root {} ⟨"order", "Order", "orders"⟩ (some "o") {}),
    .call (.join ⟨0, 0⟩ ⟨"customer", "Customer", "customers"⟩ .inner (some "c")),
    .call (.change ⟨0, 1⟩ (.onWith (.column "customer_id") (.column "id"))),
    .call (.attach ⟨0, 1⟩),
    .call (.subQuery ⟨0, 0⟩ ⟨"item", "Item", "items"⟩ (some "i")),
    .call (.change ⟨1, 0⟩ (.select (.column "order_id") none)),
    .call (.change ⟨0, 0⟩ (.inQuery (.column "id") ⟨1, 0⟩ false)),
    .call (.change ⟨0, 0⟩ (.select (.column "id") none))]

theorem render_cases_filtered : (empty.run filtered).Renders ⟨0, 0⟩ := by
  have reachable : (empty.run filtered).Reachable := ⟨filtered, by decide, rfl⟩
  exact (@render_cases _ ⟨0, 0⟩ reachable (by decide) .postgres).1.mp ⟨_, rfl⟩

end Forest

end QueryForest
