import QueryForest.Forest.Select
import QueryForest.Proofs.Sql.Conjuncts
import QueryForest.Proofs.Tree.Entries

set_option autoImplicit false

/-!
# The clauses of a query

Every node of a walk brings its predicates into the query, and every join its condition. The root and
the fetched joins bring their groups, their conditions on aggregates and their sort keys as well. So
each clause consists of what the calls on the nodes have contributed to it, in the order of the walk
and, for each node, in the order of the calls (`Sound.select_clauses`).
-/

namespace QueryForest

open Sql (Expr Select)

/-! ## Entries as expressions -/

namespace Node

variable (n : Node)

/-- The predicate of a filter. The queries in it are built by `nested`. -/
def predicate? (nested : NodeRef → Except QueryError Select) : Entry → Option Expr
  | .filter p => (n.filterExpr nested p).toOption
  | _ => none

/-- The equation of a condition, under the alias of the parent of the join. -/
def equation? (parentAlias : String) : Entry → Option Expr
  | .on c => some (.binary (.column parentAlias c.left) .eq (.column n.aliasName c.right))
  | _ => none

def groupExpr? : Entry → Option Expr
  | .group c => some (.column n.aliasName c.column)
  | _ => none

def havingExpr? : Entry → Option Expr
  | .having h => some (.binary (n.aggregateExpr h.aggregate) h.comparison.operator (.value h.value))
  | _ => none

def orderItem? : Entry → Option Sql.OrderItem
  | .order key => some ⟨.column n.aliasName key.column.column, some key.options.direction,
      key.options.nulls, key.options.ignoreCase⟩
  | _ => none

variable {n} {nested : NodeRef → Except QueryError Select}

/-! ## Predicates between `AND`s -/

/-- The predicate of a filter is not a conjunction. -/
theorem filterExpr_conjuncts {p : Filter} {e : Expr} (h : n.filterExpr nested p = .ok e) :
    e.conjuncts = [e] := by
  cases p with
  | compare c comparison v =>
      obtain rfl := Except.ok.inj h
      exact Expr.conjuncts_binary comparison.operator_ne_and
  | inList c values negated =>
      cases values with
      | nil =>
          obtain rfl := Except.ok.inj h
          rfl
      | cons v values =>
          obtain rfl := Except.ok.inj h
          rfl
  | isNull c negated =>
      obtain rfl := Except.ok.inj h
      rfl
  | inQuery c query negated | existsQuery query negated =>
      obtain ⟨s, -, h⟩ := Outcome.bind_ok h
      obtain rfl := Except.ok.inj h
      rfl
  | outer c comparison outerAlias outerColumn =>
      obtain rfl := Except.ok.inj h
      exact Expr.conjuncts_binary comparison.operator_ne_and

theorem havingExprs_conjuncts {e : Expr} (he : e ∈ n.havingExprs) : e.conjuncts = [e] := by
  obtain ⟨h, -, rfl⟩ := List.mem_map.mp he
  exact Expr.conjuncts_binary h.comparison.operator_ne_and

theorem onExpr_conjuncts {parentAlias : String} {conditions : List OnCondition} {e : Expr}
    (h : n.onExpr parentAlias conditions = some e) : e.conjuncts = conditions.map fun c =>
      .binary (.column parentAlias c.left) .eq (.column n.aliasName c.right) := by
  have parts : Sql.conjuncts (some e) = conditions.map fun c =>
      .binary (.column parentAlias c.left) .eq (.column n.aliasName c.right) := by
    rw [← h, onExpr]
    refine Sql.conjuncts_of_plain fun e he => ?_
    obtain ⟨c, -, rfl⟩ := List.mem_map.mp he
    rfl
  exact parts

end Node

/-! ## Contributions -/

namespace Tree

variable {α : Type}

/-- What the calls for a clause on a node contribute to it, one after the other, when its entries are
written by `write`. -/
def contributions (f : Forest) (t : Tree) (v : NodeId) (clause : Clause) (write : Entry → Option α)
    (changes : List Change) : List (Option α) :=
  (callsFor clause changes).map fun c => (c.added? (t.surroundings f v)).bind write

/-- The root and the fetched joins, in the order of the walk. -/
def shown (t : Tree) (root : NodeId) : List NodeId :=
  (t.walk root).filter fun v => v = root ∨ (t.node v).fetch = true

variable {f : Forest} {t : Tree} {v root : NodeId} {changes : List Change}

/-- A node contributes the entries on its lists. -/
theorem contributions_eq (clause : Clause) (lists : (t.node v).Lists (t.surroundings f v) changes)
    (join : clause = .on → (t.node v).join.isSome) (write : Entry → Option α) :
    t.contributions f v clause write changes = ((t.node v).entries clause).map write := by
  have each := congrArg (List.map fun entry => entry.bind write) (lists clause join)
  rw [List.map_map, List.map_map] at each
  exact each

/-- A node contributes nothing just when no call was for the clause. -/
theorem contributions_eq_nil {clause : Clause} {write : Entry → Option α} :
    t.contributions f v clause write changes = [] ↔ callsFor clause changes = [] :=
  List.map_eq_nil_iff

/-- What is shown is what nodes bring that are the root or fetched. -/
theorem flatMap_shown (each : NodeId → List α) : (t.shown root).flatMap each
    = (t.walk root).flatMap fun v => if v = root ∨ (t.node v).fetch = true then each v else [] := by
  unfold shown
  induction t.walk root with
  | nil => rfl
  | cons v rest ih =>
      rw [List.filter_cons, List.flatMap_cons, ← ih]
      by_cases shows : v = root ∨ (t.node v).fetch = true
      · rw [if_pos (decide_eq_true shows), if_pos shows, List.flatMap_cons]
      · rw [if_neg (mt of_decide_eq_true shows), if_neg shows, List.nil_append]

/-! ## The clauses -/

/-- Whether a join of a query is that of a node: under its alias, and with the equations of its calls, each
between a column of its parent and one of its own. -/
def JoinedAs (f : Forest) (t : Tree) (changes : NodeId → List Change) (v : NodeId)
    (item : Sql.JoinItem) : Prop :=
  ∃ parent, t.parent? v = some parent ∧ item.aliasName = some (t.aliasOf v) ∧
    item.on.conjuncts.map some
      = t.contributions f v .on ((t.node v).equation? (t.aliasOf parent)) (changes v)

/-- What can be told of the clauses of the query from `root` by the changes that were made on each node.
Everything on the left of an equation is there, so that every call has contributed something. -/
structure Clauses (f : Forest) (t : Tree) (root : NodeId) (changes : NodeId → List Change)
    (s : Select) : Prop where
  /-- The predicates of all nodes, fetched or not. -/
  condition : (Sql.conjuncts s.condition).map some = (t.walk root).flatMap fun v =>
    t.contributions f v .filter ((t.node v).predicate? f.select) (changes v)
  /-- The joins behind the root, each with its conditions. -/
  joins : List.Forall₂ (t.JoinedAs f changes) (t.walk root).tail s.joins
  groups : s.groups.map some = (t.shown root).flatMap fun v =>
    t.contributions f v .group (t.node v).groupExpr? (changes v)
  having : (Sql.conjuncts s.having).map some = (t.shown root).flatMap fun v =>
    t.contributions f v .having (t.node v).havingExpr? (changes v)
  order : s.order.map some = (t.shown root).flatMap fun v =>
    t.contributions f v .order (t.node v).orderItem? (changes v)
  condition_none : s.condition = none ↔ ∀ v ∈ t.walk root, callsFor .filter (changes v) = []
  having_none : s.having = none ↔ ∀ v ∈ t.shown root, callsFor .having (changes v) = []

section Parts

variable {nested : NodeRef → Except QueryError Select} {p : Part} {isRoot : Bool}

/-- The predicates of a part are what the calls for filters have contributed. -/
theorem part_contributions (made : t.part nested (t.node v) isRoot = .ok p)
    (lists : (t.node v).Lists (t.surroundings f v) changes) :
    p.predicates.map some
      = t.contributions f v .filter ((t.node v).predicate? nested) changes := by
  obtain ⟨-, -, -, -, -, filtered, -⟩ := part_ok made
  rw [contributions_eq .filter lists nofun, Node.entries, List.map_map]
  exact (Outcome.mapM_toOption filtered).symm

/-- The join of a node has the conditions that the calls for it have contributed. -/
theorem joinedAs_of_joinItem {changes : NodeId → List Change} {source : Sql.TableSource}
    {item : Sql.JoinItem} (made : t.joinItem (t.node v) source = .ok item)
    (lists : (t.node v).Lists (t.surroundings f v) (changes v)) : t.JoinedAs f changes v item := by
  obtain ⟨edge, parent, on, hedge, hparent, hon, rfl⟩ := joinItem_ok made
  refine ⟨parent, by rw [parent?, hedge, Option.bind_some, hparent], rfl, ?_⟩
  have entries : (t.node v).entries .on = edge.conditions.map .on := by
    rw [Node.entries, hedge]
    rfl
  rw [Node.onExpr_conjuncts hon, contributions_eq .on lists (fun _ => by rw [hedge]; rfl), entries,
    List.map_map, List.map_map]
  rfl

variable {rootPart : Part} {joined : List (Part × Sql.JoinItem)}

/-- What only shown nodes bring stands together in the order of the walk. -/
theorem Assembled.flatMap_shown (h : t.Assembled nested root rootPart joined) (sound : t.Sound)
    (hroot : root < t.nodes.length) {field : Part → List α} {own : Node → List α}
    (each : ∀ {n : Node} {isRoot : Bool} {p : Part}, t.part nested n isRoot = .ok p →
      field p = if (isRoot || n.fetch) = true then own n else []) :
    (rootPart :: joined.map (·.1)).flatMap field = (t.shown root).flatMap fun v => own (t.node v) := by
  rw [Tree.flatMap_shown]
  refine (Outcome.forall₂_flatMap (h.parts sound hroot) fun v p made => ?_).symm
  simp only [each made, Bool.or_eq_true, decide_eq_true_eq]

/-- What the shown nodes bring is what the calls for its clause have contributed. -/
theorem map_some_shown {changes : NodeId → List Change} (clause : Clause) (own : Node → List α)
    (write : Node → Entry → Option α) (other : clause ≠ .on)
    (lists : ∀ v ∈ t.shown root, (t.node v).Lists (t.surroundings f v) (changes v))
    (written : ∀ n : Node, (own n).map some = (n.entries clause).map (write n)) :
    ((t.shown root).flatMap fun v => own (t.node v)).map some
      = (t.shown root).flatMap fun v => t.contributions f v clause (write (t.node v)) (changes v) := by
  rw [List.map_flatMap]
  refine List.flatMap_congr fun v hv => ?_
  rw [contributions_eq clause (lists v hv) fun on => absurd on other, written]

/-- What all nodes are filtered by stands in one condition. -/
theorem Assembled.conjuncts_condition (h : t.Assembled nested root rootPart joined) (sound : t.Sound)
    (hroot : root < t.nodes.length) : Sql.conjuncts (assemble (t.node root) rootPart joined).condition
      = (rootPart :: joined.map (·.1)).flatMap (·.predicates) := by
  refine Sql.conjuncts_of_plain fun e he => ?_
  obtain ⟨p, hp, mem⟩ := List.mem_flatMap.mp he
  obtain ⟨v, -, made⟩ := Outcome.forall₂_mem_right (h.parts sound hroot) hp
  obtain ⟨-, -, -, -, -, filtered, -⟩ := part_ok made
  obtain ⟨predicate, -, written⟩ := Outcome.forall₂_mem_right (Outcome.mapM_ok_iff.mp filtered) mem
  exact Node.filterExpr_conjuncts written

/-- The conditions on aggregates of the shown nodes stand in one condition. -/
theorem Assembled.conjuncts_having (h : t.Assembled nested root rootPart joined) (sound : t.Sound)
    (hroot : root < t.nodes.length) : Sql.conjuncts (assemble (t.node root) rootPart joined).having
      = (t.shown root).flatMap fun v => (t.node v).havingExprs := by
  rw [← h.flatMap_shown sound hroot fun made => (part_ok made).2.2.2.1]
  refine Sql.conjuncts_of_plain fun e he => ?_
  rw [h.flatMap_shown sound hroot fun made => (part_ok made).2.2.2.1] at he
  obtain ⟨v, -, mem⟩ := List.mem_flatMap.mp he
  exact Node.havingExprs_conjuncts mem

end Parts

/-- **The clauses of a query consist of what the calls on its nodes have contributed.** -/
theorem Sound.select_clauses (sound : t.Sound) (hroot : root < t.nodes.length)
    {changes : NodeId → List Change}
    (lists : ∀ v < t.nodes.length, (t.node v).Lists (t.surroundings f v) (changes v)) {s : Select}
    (h : t.select f.select root = .ok s) : t.Clauses f root changes s := by
  obtain ⟨-, rootPart, joined, assembled, rfl, -⟩ := sound.select_ok hroot h
  have listed {v : NodeId} (hv : v ∈ t.walk root) := lists v (sound.walk_lt hroot hv)
  have listedShown : ∀ v ∈ t.shown root, (t.node v).Lists (t.surroundings f v) (changes v) :=
    fun v hv => listed (List.mem_filter.mp hv).1
  have parts : List.Forall₂ (fun v p => v ∈ t.walk root ∧
      t.part f.select (t.node v) (v = root) = .ok p) (t.walk root) (rootPart :: joined.map (·.1)) :=
    (List.forall₂_and_left _ _).mpr ⟨fun v hv => hv, assembled.parts sound hroot⟩
  have condition : (Sql.conjuncts (assemble (t.node root) rootPart joined).condition).map some
      = (t.walk root).flatMap fun v =>
        t.contributions f v .filter ((t.node v).predicate? f.select) (changes v) := by
    rw [assembled.conjuncts_condition sound hroot, List.map_flatMap]
    exact (Outcome.forall₂_flatMap parts fun v p made =>
      (part_contributions made.2 (listed made.1)).symm).symm
  have having : (Sql.conjuncts (assemble (t.node root) rootPart joined).having).map some
      = (t.shown root).flatMap fun v =>
        t.contributions f v .having (t.node v).havingExpr? (changes v) := by
    rw [assembled.conjuncts_having sound hroot]
    refine map_some_shown .having Node.havingExprs Node.havingExpr? (by decide) listedShown fun n => ?_
    rw [Node.havingExprs, Node.entries, List.map_map, List.map_map]
    rfl
  constructor
  case condition => exact condition
  case joins =>
    show List.Forall₂ _ _ (joined.map (·.2))
    rw [List.forall₂_map_right_iff]
    refine ((List.forall₂_and_left _ _).mpr ⟨fun v hv => hv, assembled.behind⟩).imp ?_
    rintro v pair ⟨hv, made⟩
    exact joinedAs_of_joinItem (joinedPart_ok made).2 (listed (List.mem_of_mem_tail hv))
  case groups =>
    show ((rootPart :: joined.map (·.1)).flatMap (·.groups)).map some = _
    rw [assembled.flatMap_shown sound hroot fun made => (part_ok made).2.2.1]
    refine map_some_shown .group Node.groupExprs Node.groupExpr? (by decide) listedShown fun n => ?_
    rw [Node.groupExprs, Node.entries, List.map_map, List.map_map]
    rfl
  case having => exact having
  case order =>
    show ((rootPart :: joined.map (·.1)).flatMap (·.order)).map some = _
    rw [assembled.flatMap_shown sound hroot fun made => (part_ok made).2.2.2.2.1]
    refine map_some_shown .order Node.orderItems Node.orderItem? (by decide) listedShown fun n => ?_
    rw [Node.orderItems, Node.entries, List.map_map, List.map_map]
    rfl
  case condition_none =>
    rw [← Sql.conjuncts_eq_nil_iff, ← List.map_eq_nil_iff, condition, List.flatMap_eq_nil_iff]
    simp only [contributions_eq_nil]
  case having_none =>
    rw [← Sql.conjuncts_eq_nil_iff, ← List.map_eq_nil_iff, having, List.flatMap_eq_nil_iff]
    simp only [contributions_eq_nil]

/-- The predicate of every filter of a walked node stands in the query. -/
theorem Clauses.predicate {s : Select} {changes : NodeId → List Change}
    (clauses : t.Clauses f root changes s)
    (lists : (t.node v).Lists (t.surroundings f v) (changes v)) (hv : v ∈ t.walk root) {p : Filter}
    (hp : p ∈ (t.node v).filters) :
    ∃ e ∈ Sql.conjuncts s.condition, (t.node v).filterExpr f.select p = .ok e := by
  have entry : Entry.filter p ∈ (t.node v).entries .filter := List.mem_map_of_mem hp
  have contributed : (t.node v).predicate? f.select (.filter p)
      ∈ t.contributions f v .filter ((t.node v).predicate? f.select) (changes v) := by
    rw [contributions_eq .filter lists nofun]
    exact List.mem_map_of_mem entry
  have written : (t.node v).predicate? f.select (.filter p)
      ∈ (Sql.conjuncts s.condition).map some := by
    rw [clauses.condition]
    exact List.mem_flatMap.mpr ⟨v, hv, contributed⟩
  obtain ⟨e, he, same⟩ := List.mem_map.mp written
  exact ⟨e, he, Outcome.toOption_eq_some.mp same.symm⟩

end Tree

end QueryForest
