import QueryForest.Proofs.Sql.Values
import QueryForest.Proofs.Tree.Built

set_option autoImplicit false

/-!
# The values of a tree's query

What a node binds is seen from the node alone: the query that it takes its rows from, the values and
queries in its filters, and the values that it compares aggregates with. In the query of a tree all
rows come first, node by node in the order of the walk, then all filters and then the conditions on
aggregates of the nodes that show their results (`select_values`).
-/

namespace QueryForest

open Sql (Expr Select)

/-- What is bound in one place of a query: a value, or all the values of a nested query. -/
inductive Slot where
  | value (v : Value)
  | query (q : NodeRef)

/-- The values that are bound in a place, when `params` gives those of nested queries. -/
def Slot.values (params : NodeRef → List Value) : Slot → List Value
  | value v => [v]
  | query q => params q

/-- What a filter binds. Nothing is bound where a column is compared with another one or with no
value. -/
def Filter.slots : Filter → List Slot
  | compare _ _ v => [.value v]
  | inList _ values _ => values.map .value
  | inQuery _ query _ => [.query query]
  | existsQuery query _ => [.query query]
  | isNull _ _ | outer _ _ _ _ => []

variable {nested : NodeRef → Except QueryError Select} {params : NodeRef → List Value}

/-! ## Values of a node -/

namespace Node

variable {n : Node}

/-- The condition of a join compares columns with each other. -/
theorem onExpr_values {parentAlias : String} {conditions : List OnCondition} {on : Expr}
    (h : n.onExpr parentAlias conditions = some on) : on.values = [] := by
  unfold onExpr at h
  have all := Expr.values_conjunction (conditions.map fun c =>
    .binary (.column parentAlias c.left) .eq (n.columnExpr c.right))
  rw [h, List.flatMap_map] at all
  calc on.values
      = (some on).toList.flatMap Expr.values := (List.append_nil _).symm
    _ = conditions.flatMap fun c =>
          (Expr.binary (.column parentAlias c.left) .eq (n.columnExpr c.right)).values := all
    _ = [] := List.flatMap_eq_nil_iff.mpr fun c _ => by simp [columnExpr]

theorem havingExprs_values : n.havingExprs.flatMap (·.values) = n.having.map (·.value) := by
  have each (h : Having) : (Expr.binary (n.aggregateExpr h.aggregate) h.comparison.operator
      (.value h.value)).values = [h.value] := by
    rw [Expr.values_binary, (n.aggregateExpr_scaled h.aggregate).values]
    rfl
  unfold havingExprs
  rw [List.flatMap_map, List.map_eq_flatMap]
  exact List.flatMap_congr fun h _ => each h

variable (inside : ∀ q s, nested q = .ok s → params q = s.values)

include inside

theorem filterExpr_values {p : Filter} {e : Expr} (h : n.filterExpr nested p = .ok e) :
    e.values = p.slots.flatMap (Slot.values params) := by
  cases p with
  | compare c comparison v =>
      obtain rfl := Except.ok.inj h
      simp [columnExpr, Filter.slots, Slot.values]
  | inList c values negated =>
      cases values with
      | nil =>
          obtain rfl := Except.ok.inj h
          rfl
      | cons v values =>
          obtain rfl := Except.ok.inj h
          simp [columnExpr, Filter.slots, Slot.values, List.flatMap_map]
  | isNull c negated =>
      obtain rfl := Except.ok.inj h
      simp [columnExpr, Filter.slots]
  | inQuery c query negated =>
      obtain ⟨s, made, h⟩ := Outcome.bind_ok h
      obtain rfl := Except.ok.inj h
      simp [columnExpr, Filter.slots, Slot.values, inside query s made]
  | existsQuery query negated =>
      obtain ⟨s, made, h⟩ := Outcome.bind_ok h
      obtain rfl := Except.ok.inj h
      simp [Filter.slots, Slot.values, inside query s made]
  | outer c comparison outerAlias outerColumn =>
      obtain rfl := Except.ok.inj h
      simp [columnExpr, Filter.slots]

theorem tableSource_values {source : Sql.TableSource} (h : n.tableSource nested = .ok source) :
    source.values = n.source.query?.toList.flatMap params := by
  unfold tableSource at h
  split at h
  · next e entity =>
    obtain rfl := Except.ok.inj h
    simp [entity, NodeSource.query?]
  · next query e nestedQuery =>
    obtain ⟨s, made, h⟩ := Outcome.bind_ok h
    obtain rfl := Except.ok.inj h
    simp [nestedQuery, NodeSource.query?, inside query s made]

end Node

/-! ## Values of a part -/

namespace Tree

variable {t : Tree} {root : NodeId}

/-- The values that a part brings, clause by clause. -/
structure Part.Binds (p : Part) (n : Node) (shown : Bool) (params : NodeRef → List Value) : Prop where
  columns : p.columns.flatMap (·.values) = []
  groups : p.groups.flatMap (·.values) = []
  order : p.order.flatMap (·.expr.values) = []
  source : p.source.values = n.source.query?.toList.flatMap params
  predicates : p.predicates.flatMap (·.values)
    = (n.filters.flatMap Filter.slots).flatMap (Slot.values params)
  having : p.having.flatMap (·.values) = if shown then n.having.map (·.value) else []

theorem part_binds (inside : ∀ q s, nested q = .ok s → params q = s.values) {n : Node} {isRoot : Bool}
    {p : Part} (h : t.part nested n isRoot = .ok p) : p.Binds n (isRoot || n.fetch) params := by
  have formed := part_formed (Q := fun _ => True) (fun _ _ _ => trivial) h
  obtain ⟨-, -, -, having, -, filtered, found⟩ := part_ok h
  constructor
  case columns => exact List.flatMap_eq_nil_iff.mpr fun e he => (formed.columns e he).values
  case groups => exact List.flatMap_eq_nil_iff.mpr fun e he => (formed.groups e he).values
  case order => exact List.flatMap_eq_nil_iff.mpr fun o ho => (formed.order o ho).1.values
  case source => exact Node.tableSource_values inside found
  case predicates =>
    rw [List.flatMap_assoc]
    refine (Outcome.forall₂_flatMap (Outcome.mapM_ok_iff.mp filtered) fun p e made => ?_).symm
    exact (Node.filterExpr_values inside made).symm
  case having =>
    rw [having]
    split
    · exact Node.havingExprs_values
    · rfl

/-! ## Values of the query -/

/-- What the nodes of a query bind, in the order of the query: first the queries that they take their
rows from, then their filters, then the conditions on aggregates of the nodes that show their results,
and at last a limit and an offset. -/
def inOrder (params : NodeRef → List Value) (nodes : List NodeId) (rows : NodeId → Option NodeRef)
    (filters : NodeId → List Slot) (shown : NodeId → Bool) (having : NodeId → List Value)
    (limit offset : Option UInt64) : List Value :=
  nodes.flatMap (fun v => (rows v).toList.flatMap params) ++
    nodes.flatMap (fun v => (filters v).flatMap (Slot.values params)) ++
    (nodes.filter shown).flatMap having ++ limit.toList.map .uint ++ offset.toList.map .uint

/-- What a query that is put together from parts binds, clause by clause. -/
theorem assemble_values (n : Node) (rootPart : Part) {joined : List (Part × Sql.JoinItem)}
    (rows : ∀ pair ∈ joined, pair.2.source = pair.1.source ∧ pair.2.on.values = []) :
    let parts := rootPart :: joined.map (·.1)
    (assemble n rootPart joined).values =
      parts.flatMap (fun p => p.columns.flatMap (·.values)) ++ parts.flatMap (·.source.values) ++
        parts.flatMap (fun p => p.predicates.flatMap (·.values)) ++
        parts.flatMap (fun p => p.groups.flatMap (·.values)) ++
        parts.flatMap (fun p => p.having.flatMap (·.values)) ++
        parts.flatMap (fun p => p.order.flatMap (·.expr.values)) ++
        n.limit.toList.map .uint ++ n.offset.toList.map .uint := by
  intro parts
  have joins : (joined.map (·.2)).flatMap (fun j => j.source.values ++ j.on.values)
      = (joined.map (·.1)).flatMap (·.source.values) := by
    rw [List.flatMap_map, List.flatMap_map]
    refine List.flatMap_congr fun pair mem => ?_
    obtain ⟨source, on⟩ := rows pair mem
    rw [source, on, List.append_nil]
  have count (k : Option UInt64) :
      (k.map fun n => Expr.value (.uint n)).toList.flatMap (·.values) = k.toList.map .uint := by
    cases k <;> rfl
  rw [Select.values_eq]
  simp only [assemble, joins, count, Expr.values_conjunction, List.flatMap_assoc]
  simp [parts]

theorem flatMap_filter {α β : Type} (keep : α → Bool) (k : α → List β) (l : List α) :
    (l.filter keep).flatMap k = l.flatMap fun a => if keep a then k a else [] := by
  induction l with
  | nil => rfl
  | cons a l ih => by_cases h : keep a <;> simp [h, ih]

/-- **The values of a query are those that the nodes of the walk bind, in the order of the query.** -/
theorem Sound.select_values (sound : t.Sound) (hroot : root < t.nodes.length)
    (inside : ∀ q s, nested q = .ok s → params q = s.values) {s : Select}
    (h : t.select nested root = .ok s) :
    s.values = inOrder params (t.walk root) (fun v => (t.node v).source.query?)
      (fun v => (t.node v).filters.flatMap Filter.slots) (fun v => v = root || (t.node v).fetch)
      (fun v => (t.node v).having.map (·.value)) (t.node root).limit (t.node root).offset := by
  obtain ⟨-, rootPart, joined, assembled, rfl, -⟩ := sound.select_ok hroot h
  let Bound (v : NodeId) (p : Part) : Prop :=
    p.Binds (t.node v) (v = root || (t.node v).fetch) params
  have bound : List.Forall₂ Bound (t.walk root) (rootPart :: joined.map (·.1)) :=
    (assembled.parts sound hroot).imp fun v p made => part_binds inside made
  have clause {k : Part → List Value} (m : NodeId → List Value)
      (same : ∀ v p, Bound v p → k p = m v) :
      (rootPart :: joined.map (·.1)).flatMap k = (t.walk root).flatMap m :=
    (Outcome.forall₂_flatMap bound fun v p b => (same v p b).symm).symm
  have bare {k : Part → List Value} (empty : ∀ v p, Bound v p → k p = []) :
      (rootPart :: joined.map (·.1)).flatMap k = [] := by
    rw [clause (fun _ => []) empty]
    exact List.flatMap_eq_nil_iff.mpr fun _ _ => rfl
  -- A join reads the rows of its part, and its condition has no values.
  have rows : ∀ pair ∈ joined, pair.2.source = pair.1.source ∧ pair.2.on.values = [] := by
    intro pair mem
    obtain ⟨v, -, made⟩ := Outcome.forall₂_mem_right assembled.behind mem
    obtain ⟨edge, parent, on, -, -, hon, item⟩ := joinItem_ok (joinedPart_ok made).2
    rw [item]
    exact ⟨rfl, Node.onExpr_values hon⟩
  rw [assemble_values _ _ rows, bare fun v p b => b.columns, bare fun v p b => b.groups,
    bare fun v p b => b.order, clause _ fun v p b => b.source, clause _ fun v p b => b.predicates,
    clause _ fun v p b => b.having]
  unfold inOrder
  rw [flatMap_filter]
  simp only [List.nil_append, List.append_nil]

end Tree

end QueryForest
