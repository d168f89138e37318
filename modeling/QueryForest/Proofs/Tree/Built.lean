import QueryForest.Proofs.Sql.Readable
import QueryForest.Proofs.Tree.Scope

set_option autoImplicit false

/-!
# The queries of trees have the forms

Whatever a tree contains, its query is of one of the forms that are told from their symbols, as long
as the queries nested in it are (`select_formed`).
-/

namespace QueryForest

open Sql (Expr Select Ending Argument)

/-! ## Expressions of a node -/

namespace Node

variable (n : Node)

theorem aggregateExpr_scaled (a : Aggregate) : (n.aggregateExpr a).Scaled := by
  unfold aggregateExpr
  cases a.column with
  | none =>
      cases a.scale with
      | none => exact .call a.function .rows
      | some places => exact .rounded a.function .rows places
  | some c =>
      cases a.scale with
      | none => exact .call a.function (.column a.distinct n.aliasName c.column)
      | some places => exact .rounded a.function (.column a.distinct n.aliasName c.column) places

theorem columnExpr_shown (column : String) (aliasName : Option String) :
    ((n.columnExpr column).underAlias aliasName).Shown :=
  ⟨_, aliasName, .column n.aliasName column, rfl⟩

theorem selectExprs_shown {e : Expr} (he : e ∈ n.selectExprs) : e.Shown := by
  obtain ⟨item, -, made⟩ := List.mem_filterMap.mp he
  cases item with
  | column c aliasName =>
      obtain ⟨-, made⟩ := Option.ite_none_left_eq_some.mp made
      obtain rfl := Option.some.inj made
      exact n.columnExpr_shown c.column _
  | aggregate a =>
      obtain rfl := Option.some.inj made
      exact ⟨_, a.aliasName, .scaled (n.aggregateExpr_scaled a), rfl⟩

theorem columnExprs_shown {columns : List Column} {e : Expr} (he : e ∈ n.columnExprs columns) :
    e.Shown := by
  obtain ⟨c, -, rfl⟩ := List.mem_map.mp he
  exact n.columnExpr_shown c.name _

variable {Q : Select → Prop}

theorem columnExpr_formed (column : String) {o : Option Ending} (h : ∀ t ∈ o, t.Formed Q) :
    ((n.columnExpr column).ended o).Formed Q :=
  .atom (.tested n.aliasName column h)

theorem column_formed (aliasName column : String) : (Expr.column aliasName column).Formed Q :=
  .atom (@Expr.Atom.tested Q aliasName column none fun _ missing => absurd missing (by simp))

theorem havingExprs_formed {e : Expr} (he : e ∈ n.havingExprs) : e.Formed Q := by
  obtain ⟨h, -, rfl⟩ := List.mem_map.mp he
  exact .binary _ (.atom (.scaled (n.aggregateExpr_scaled h.aggregate))) (.atom (.value h.value))

theorem onExpr_formed {parentAlias : String} {conditions : List OnCondition} {e : Expr}
    (h : n.onExpr parentAlias conditions = some e) : e.Formed Q := by
  refine Expr.conjunction_induction (fun _ _ ha hb => .binary _ ha hb) (fun e he => ?_) h
  obtain ⟨c, -, rfl⟩ := List.mem_map.mp he
  exact .binary _ (column_formed parentAlias c.left) (column_formed n.aliasName c.right)

variable {nested : NodeRef → Except QueryError Select} (inside : ∀ q s, nested q = .ok s → Q s)

include inside

theorem filterExpr_formed {p : Filter} {e : Expr} (h : n.filterExpr nested p = .ok e) :
    e.Formed Q := by
  have ended (t : Ending) (ht : t.Formed Q) (column : String) :
      (t.expr (n.columnExpr column)).Formed Q :=
    n.columnExpr_formed column (o := some t) fun t' same => Option.some.inj same ▸ ht
  cases p with
  | compare c comparison v =>
      obtain rfl := Except.ok.inj h
      exact .binary _ (column_formed _ _) (.atom (.value v))
  | inList c values negated =>
      cases values with
      | nil =>
          obtain rfl := Except.ok.inj h
          exact .atom (.literal negated)
      | cons v values =>
          obtain rfl := Except.ok.inj h
          exact ended _ (.inList (List.cons_ne_nil v values) negated) c.column
  | isNull c negated =>
      obtain rfl := Except.ok.inj h
      exact ended _ (.isNull negated) c.column
  | inQuery c query negated =>
      obtain ⟨s, made, h⟩ := Outcome.bind_ok h
      obtain rfl := Except.ok.inj h
      exact ended _ (.inSelect (inside query s made) negated) c.column
  | existsQuery query negated =>
      obtain ⟨s, made, h⟩ := Outcome.bind_ok h
      obtain rfl := Except.ok.inj h
      exact .atom (.existsSelect (inside query s made) negated)
  | outer c comparison outerAlias outerColumn =>
      obtain rfl := Except.ok.inj h
      exact .binary _ (column_formed _ _) (column_formed _ _)

theorem tableSource_formed {source : Sql.TableSource} (h : n.tableSource nested = .ok source) :
    source.Formed Q := by
  unfold tableSource at h
  split at h
  · next e _ =>
    obtain rfl := Except.ok.inj h
    exact .table e.table
  · next query e _ =>
    obtain ⟨s, made, h⟩ := Outcome.bind_ok h
    obtain rfl := Except.ok.inj h
    exact .select (inside query s made)

end Node

/-! ## Parts and queries -/

namespace Tree

variable {t : Tree} {root : NodeId} {Q : Select → Prop}

theorem projection_shown {n : Node} {isRoot : Bool} {columns : List Expr}
    (h : t.projection n isRoot = .ok columns) {e : Expr} (he : e ∈ columns) : e.Shown := by
  unfold projection at h
  split at h
  · split at h
    · obtain ⟨all, -, h⟩ := Outcome.bind_ok h
      obtain rfl := Except.ok.inj h
      rcases List.mem_append.mp he with asked | listed
      · exact n.selectExprs_shown asked
      · exact n.columnExprs_shown listed
    · obtain rfl := Except.ok.inj h
      rcases List.mem_append.mp he with asked | all
      · exact n.selectExprs_shown asked
      · split at all
        · rw [List.mem_singleton.mp all]
          exact ⟨_, none, .wildcard n.aliasName, rfl⟩
        · exact absurd all List.not_mem_nil
  · obtain rfl := Except.ok.inj h
    exact n.selectExprs_shown he

/-- What a part consists of. -/
structure Part.Formed (Q : Select → Prop) (p : Part) : Prop where
  columns : ∀ e ∈ p.columns, e.Shown
  groups : ∀ e ∈ p.groups, e.IsColumn
  having : ∀ e ∈ p.having, e.Formed Q
  order : ∀ o ∈ p.order, o.Formed
  predicates : ∀ e ∈ p.predicates, e.Formed Q
  source : p.source.Formed Q

variable {nested : NodeRef → Except QueryError Select} (inside : ∀ q s, nested q = .ok s → Q s)

include inside

theorem part_formed {n : Node} {isRoot : Bool} {p : Part} (h : t.part nested n isRoot = .ok p) :
    p.Formed Q := by
  obtain ⟨shown, hidden, groups, having, order, filtered, found⟩ := part_ok h
  have clause {α : Type} {l : List α} {x : α} (hx : x ∈ if isRoot || n.fetch then l else []) :
      x ∈ l := by
    split at hx
    · exact hx
    · exact absurd hx List.not_mem_nil
  constructor
  case columns =>
    intro e he
    by_cases shows : Shows n isRoot
    · exact projection_shown (shown shows) he
    · rw [hidden shows] at he
      exact absurd he List.not_mem_nil
  case groups =>
    intro e he
    obtain ⟨c, -, rfl⟩ := List.mem_map.mp (clause (groups ▸ he))
    exact ⟨n.aliasName, c.column, rfl⟩
  case having => exact fun e he => n.havingExprs_formed (clause (having ▸ he))
  case order =>
    intro o ho
    obtain ⟨key, -, rfl⟩ := List.mem_map.mp (clause (order ▸ ho))
    exact ⟨⟨n.aliasName, key.column.column, rfl⟩, key.options.direction, rfl⟩
  case predicates =>
    intro e he
    obtain ⟨p, -, made⟩ := Outcome.forall₂_mem_right (Outcome.mapM_ok_iff.mp filtered) he
    exact n.filterExpr_formed inside made
  case source => exact n.tableSource_formed inside found

theorem joinedPart_formed {id : NodeId} {pair : Part × Sql.JoinItem}
    (h : t.joinedPart nested id = .ok pair) : pair.1.Formed Q ∧ pair.2.Formed Q := by
  obtain ⟨made, joined⟩ := joinedPart_ok h
  have part := part_formed inside made
  obtain ⟨edge, parent, on, -, -, hon, item⟩ := joinItem_ok joined
  rw [item]
  exact ⟨part, part.source, ⟨_, rfl⟩, (t.node id).onExpr_formed hon⟩

/-- **The query of a tree is of one of the forms**, if those nested in it are. -/
theorem select_formed {s : Select} (h : t.select nested root = .ok s) : s.Formed Q := by
  obtain ⟨rootPart, joined, assembled, rfl, columns⟩ := write_ok (write_of_select h)
  have first := part_formed inside assembled.first
  have behind {pair : Part × Sql.JoinItem} (mem : pair ∈ joined) :
      pair.1.Formed Q ∧ pair.2.Formed Q := by
    obtain ⟨id, -, made⟩ := Outcome.forall₂_mem_right assembled.behind mem
    exact joinedPart_formed inside made
  have parts {p : Part} (mem : p ∈ rootPart :: joined.map (·.1)) : p.Formed Q := by
    rcases List.mem_cons.mp mem with rfl | mem
    · exact first
    · obtain ⟨pair, there, rfl⟩ := List.mem_map.mp mem
      exact (behind there).1
  constructor
  case nonempty => exact columns
  case columns =>
    intro e he
    obtain ⟨p, mem, he⟩ := List.mem_flatMap.mp he
    exact (parts mem).columns e he
  case source =>
    intro item hitem
    obtain rfl := Option.some.inj hitem
    exact ⟨first.source, _, rfl⟩
  case joins =>
    intro j hj
    obtain ⟨pair, mem, rfl⟩ := List.mem_map.mp hj
    exact (behind mem).2
  case condition =>
    intro e he
    refine Expr.conjunction_induction (fun _ _ ha hb => .binary _ ha hb) (fun e he => ?_) he
    obtain ⟨p, mem, he⟩ := List.mem_flatMap.mp he
    exact (parts mem).predicates e he
  case groups =>
    intro e he
    obtain ⟨p, mem, he⟩ := List.mem_flatMap.mp he
    exact (parts mem).groups e he
  case having =>
    intro e he
    refine Expr.conjunction_induction (fun _ _ ha hb => .binary _ ha hb) (fun e he => ?_) he
    obtain ⟨p, mem, he⟩ := List.mem_flatMap.mp he
    exact (parts mem).having e he
  case order =>
    intro o ho
    obtain ⟨p, mem, ho⟩ := List.mem_flatMap.mp ho
    exact (parts mem).order o ho
  case limit =>
    intro e he
    obtain ⟨n, -, rfl⟩ := Option.map_eq_some_iff.mp he
    exact ⟨.uint n, rfl⟩
  case offset =>
    intro e he
    obtain ⟨n, -, rfl⟩ := Option.map_eq_some_iff.mp he
    exact ⟨.uint n, rfl⟩

end Tree

end QueryForest
