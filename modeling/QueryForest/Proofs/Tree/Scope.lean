import QueryForest.Proofs.Sql.Scope
import QueryForest.Proofs.Tree.Select

set_option autoImplicit false

/-!
# The scope of a query

What a node brings into a query speaks of the columns of this node only, but for its filters that
are correlated with the enclosing query or hold a query of their own. The condition of a join also
speaks of its parent, which the walk has listed before, itself or another node of the same origin
and so of the same alias. Hence the query of a sound tree is well scoped (`Sound.wellScoped`).
-/

namespace QueryForest

open Sql (Expr Select)

variable {nested : NodeRef → Except QueryError Select}

/-! ## Expressions of a node -/

namespace Node

variable (n : Node)

theorem columnExpr_local (column : String) : (n.columnExpr column).Local n.aliasName :=
  Expr.Local.column n.aliasName column

theorem aggregateExpr_local (a : Aggregate) : (n.aggregateExpr a).Local n.aliasName := by
  have rows : (Expr.call a.function.sql [] true false).Local n.aliasName :=
    Expr.Local.call fun e he => absurd he List.not_mem_nil
  have column (c : ColumnRef) :
      (Expr.call a.function.sql [n.columnExpr c.column] false a.distinct).Local n.aliasName :=
    Expr.Local.call fun e he => by
      rw [List.mem_singleton.mp he]
      exact n.columnExpr_local c.column
  have rounded {call : Expr} (h : call.Local n.aliasName) (places : Nat) :
      (Expr.call "ROUND" [call, .literal (toString places)] false false).Local n.aliasName :=
    Expr.Local.call fun e he => by
      rcases List.mem_cons.mp he with rfl | he
      · exact h
      · rw [List.mem_singleton.mp he]
        exact Expr.Local.literal n.aliasName _
  unfold aggregateExpr
  cases a.column with
  | none =>
      cases a.scale with
      | none => exact rows
      | some places => exact rounded rows places
  | some c =>
      cases a.scale with
      | none => exact column c
      | some places => exact rounded (column c) places

theorem selectExprs_local {e : Expr} (he : e ∈ n.selectExprs) : e.Local n.aliasName := by
  obtain ⟨item, -, made⟩ := List.mem_filterMap.mp he
  cases item with
  | column c aliasName =>
      obtain ⟨-, made⟩ := Option.ite_none_left_eq_some.mp made
      obtain rfl := Option.some.inj made
      exact (n.columnExpr_local c.column).underAlias _
  | aggregate a =>
      obtain rfl := Option.some.inj made
      exact (n.aggregateExpr_local a).underAlias _

theorem columnExprs_local {columns : List Column} {e : Expr} (he : e ∈ n.columnExprs columns) :
    e.Local n.aliasName := by
  obtain ⟨c, -, rfl⟩ := List.mem_map.mp he
  exact (n.columnExpr_local c.name).underAlias _

theorem groupExprs_local {e : Expr} (he : e ∈ n.groupExprs) : e.Local n.aliasName := by
  obtain ⟨c, -, rfl⟩ := List.mem_map.mp he
  exact n.columnExpr_local c.column

theorem havingExprs_local {e : Expr} (he : e ∈ n.havingExprs) : e.Local n.aliasName := by
  obtain ⟨h, -, rfl⟩ := List.mem_map.mp he
  exact Expr.Local.binary (n.aggregateExpr_local h.aggregate) (Expr.Local.value n.aliasName h.value)

theorem orderItems_local {o : Sql.OrderItem} (ho : o ∈ n.orderItems) : o.expr.Local n.aliasName := by
  obtain ⟨key, -, rfl⟩ := List.mem_map.mp ho
  exact n.columnExpr_local key.column.column

/-- The columns of the enclosing query that a node is correlated with. -/
def outerColumns : List (String × String) :=
  n.filters.filterMap fun
    | .outer _ _ outerAlias outerColumn => some (outerAlias, outerColumn)
    | _ => none

/-- What the filters of a node make: predicates of its own columns, comparisons with columns of the
enclosing query, and predicates with a query that the node nests. -/
inductive Predicate (nested : NodeRef → Except QueryError Select) (n : Node) : Expr → Prop
  | own {e : Expr} (h : e.Local n.aliasName) : Predicate nested n e
  | outer {column : String} {op : Sql.Operator} {there : String × String}
      (mem : there ∈ n.outerColumns) :
      Predicate nested n (.binary (.column n.aliasName column) op (.column there.1 there.2))
  | inSelect {column : String} {q : NodeRef} {s : Select} {negated : Bool} (mem : q ∈ n.queries)
      (made : nested q = .ok s) :
      Predicate nested n (.inSelect (.column n.aliasName column) s negated)
  | existsSelect {q : NodeRef} {s : Select} {negated : Bool} (mem : q ∈ n.queries)
      (made : nested q = .ok s) : Predicate nested n (.existsSelect s negated)

variable {n}

theorem predicate_of_filterExpr {p : Filter} (mem : p ∈ n.filters) {e : Expr}
    (h : n.filterExpr nested p = .ok e) : n.Predicate nested e := by
  have query {q : NodeRef} (hq : p.query? = some q) : q ∈ n.queries :=
    mem_queries.mpr (Or.inr ⟨p, mem, hq⟩)
  cases p with
  | compare c comparison v =>
      obtain rfl := Except.ok.inj h
      exact .own ((n.columnExpr_local c.column).binary (Expr.Local.value n.aliasName v))
  | inList c values negated =>
      cases values with
      | nil =>
          obtain rfl := Except.ok.inj h
          exact .own (Expr.Local.literal n.aliasName _)
      | cons v values =>
          obtain rfl := Except.ok.inj h
          refine .own ((n.columnExpr_local c.column).inList fun item hitem => ?_)
          obtain ⟨v, -, rfl⟩ := List.mem_map.mp hitem
          exact Expr.Local.value n.aliasName v
  | isNull c negated =>
      obtain rfl := Except.ok.inj h
      exact .own (n.columnExpr_local c.column).isNull
  | inQuery c q negated =>
      obtain ⟨s, made, h⟩ := Outcome.bind_ok h
      obtain rfl := Except.ok.inj h
      exact .inSelect (query rfl) made
  | existsQuery q negated =>
      obtain ⟨s, made, h⟩ := Outcome.bind_ok h
      obtain rfl := Except.ok.inj h
      exact .existsSelect (query rfl) made
  | outer c comparison outerAlias outerColumn =>
      obtain rfl := Except.ok.inj h
      exact @Predicate.outer _ _ _ _ (outerAlias, outerColumn)
        (List.mem_filterMap.mpr ⟨_, mem, rfl⟩)

/-- A query in a predicate is one that the node nests. -/
theorem Predicate.nests {e : Expr} (h : n.Predicate nested e) {s : Select} (nests : e.Nests s) :
    ∃ q ∈ n.queries, nested q = .ok s := by
  cases h with
  | own h => exact absurd nests (h.plain s)
  | outer =>
      have column (a c : String) : ¬ (Expr.column a c).Nests s := (Expr.Local.column a c).plain s
      cases nests with
      | left nests => exact absurd nests (column _ _)
      | right nests => exact absurd nests (column _ _)
  | inSelect mem made =>
      cases nests with
      | inSelect => exact ⟨_, mem, made⟩
      | beside nests => exact absurd nests ((Expr.Local.column _ _).plain s)
  | existsSelect mem made =>
      cases nests with
      | existsSelect => exact ⟨_, mem, made⟩

end Node

namespace Tree

variable {t : Tree} {root : NodeId}

theorem projection_local {n : Node} {isRoot : Bool} {columns : List Expr}
    (h : t.projection n isRoot = .ok columns) {e : Expr} (he : e ∈ columns) :
    e.Local n.aliasName := by
  unfold projection at h
  split at h
  · split at h
    · obtain ⟨all, -, h⟩ := Outcome.bind_ok h
      obtain rfl := Except.ok.inj h
      rcases List.mem_append.mp he with asked | listed
      · exact n.selectExprs_local asked
      · exact n.columnExprs_local listed
    · obtain rfl := Except.ok.inj h
      rcases List.mem_append.mp he with asked | all
      · exact n.selectExprs_local asked
      · split at all
        · rw [List.mem_singleton.mp all]
          exact Expr.Local.wildcard n.aliasName
        · exact absurd all List.not_mem_nil
  · obtain rfl := Except.ok.inj h
    exact n.selectExprs_local he

/-- What a part that was made from a node consists of. -/
structure Part.Of (nested : NodeRef → Except QueryError Select) (n : Node) (p : Part) : Prop where
  columns : ∀ e ∈ p.columns, e.Local n.aliasName
  groups : ∀ e ∈ p.groups, e.Local n.aliasName
  having : ∀ e ∈ p.having, e.Local n.aliasName
  order : ∀ o ∈ p.order, o.expr.Local n.aliasName
  predicates : ∀ e ∈ p.predicates, n.Predicate nested e
  source : ∀ s, p.source = .select s → ∃ q ∈ n.queries, nested q = .ok s

theorem part_of {n : Node} {isRoot : Bool} {p : Part} (h : t.part nested n isRoot = .ok p) :
    p.Of nested n := by
  obtain ⟨shown, hidden, groups, having, order, filtered, found⟩ := part_ok h
  have clause {α : Type} {l : List α} {x : α} (hx : x ∈ if isRoot || n.fetch then l else []) :
      x ∈ l := by
    split at hx
    · exact hx
    · exact absurd hx List.not_mem_nil
  constructor
  case columns =>
    intro e he
    by_cases shows : Shows n isRoot
    · exact projection_local (shown shows) he
    · rw [hidden shows] at he
      exact absurd he List.not_mem_nil
  case groups => exact fun e he => n.groupExprs_local (clause (groups ▸ he))
  case having => exact fun e he => n.havingExprs_local (clause (having ▸ he))
  case order => exact fun o ho => n.orderItems_local (clause (order ▸ ho))
  case predicates =>
    intro e he
    obtain ⟨predicate, mem, made⟩ := Outcome.forall₂_mem_right (Outcome.mapM_ok_iff.mp filtered) he
    exact Node.predicate_of_filterExpr mem made
  case source =>
    intro s hs
    unfold Node.tableSource at found
    split at found
    · rw [hs] at found
      exact absurd found (by simp)
    · next q e source =>
      obtain ⟨s', made, found⟩ := Outcome.bind_ok found
      have same : s' = s := Sql.TableSource.select.inj ((Except.ok.inj found).trans hs)
      exact ⟨q, Node.mem_queries.mpr (Or.inl (by rw [source]; rfl)), same ▸ made⟩

/-! ## Queries of sound trees -/

/-- The columns of the enclosing query that the query of a node is correlated with. -/
def outerColumns (t : Tree) (root : NodeId) : List (String × String) :=
  (t.walk root).flatMap fun v => (t.node v).outerColumns

theorem aliases_of_joinedParts {ids : List NodeId} {joined : List (Part × Sql.JoinItem)}
    (h : List.Forall₂ (fun id pair => t.joinedPart nested id = .ok pair) ids joined) :
    (joined.map (·.2)).filterMap (·.aliasName) = ids.map t.aliasOf := by
  induction h with
  | nil => rfl
  | @cons id pair ids joined made _ ih =>
      obtain ⟨edge, parent, on, -, -, -, same⟩ := joinItem_ok (joinedPart_ok made).2
      have named : pair.2.aliasName = some (t.aliasOf id) := by
        rw [same]
        rfl
      rw [List.map_cons, List.map_cons, List.filterMap_cons_some named, ih]

/-- The aliases of a query that begins with a node and goes on with some joins. -/
theorem aliases_assemble {s : Select} {source : Sql.TableSource} {ids : List NodeId}
    {joined : List (Part × Sql.JoinItem)} (hs : s.source = some ⟨source, some (t.aliasOf root)⟩)
    (hj : s.joins = joined.map (·.2))
    (h : List.Forall₂ (fun id pair => t.joinedPart nested id = .ok pair) ids joined) :
    s.aliases = (root :: ids).map t.aliasOf := by
  rw [Select.aliases, hs, hj, aliases_of_joinedParts h]
  rfl

/-- The condition of a join equates columns of its parent with its own. -/
theorem on_of_joinedPart {id : NodeId} {pair : Part × Sql.JoinItem}
    (h : t.joinedPart nested id = .ok pair) : ∃ parent conditions, t.parent? id = some parent ∧
      pair.2.aliasName = some (t.aliasOf id) ∧ Expr.conjunction conditions = some pair.2.on ∧
      ∀ c ∈ conditions, ∃ left right,
        c = .binary (.column (t.aliasOf parent) left) .eq (.column (t.aliasOf id) right) := by
  obtain ⟨edge, parent, on, hedge, hparent, hon, same⟩ := joinItem_ok (joinedPart_ok h).2
  refine ⟨parent, _, by simp [parent?, hedge, hparent], by rw [same]; rfl, by rw [same]; exact hon, ?_⟩
  intro c hc
  obtain ⟨condition, -, rfl⟩ := List.mem_map.mp hc
  exact ⟨condition.left, condition.right, rfl⟩

/-- A node that a join hangs under goes by the alias of the parent of this join. -/
theorem Sound.aliasOf_parent (sound : t.Sound) {u parent join : NodeId} (hu : u < t.nodes.length)
    (hparent : t.parent? join = some parent) (child : t.IsChild (t.origin u) join) :
    t.aliasOf u = t.aliasOf parent := by
  have lt := sound.linked.parent_lt join parent hparent
  rw [sound.named.aliasOf_inj sound.linked hu lt]
  exact child.unique ⟨parent, hparent, rfl⟩

/-- A predicate of a node of the walk is in scope or correlated. -/
theorem predicate_scope {v : NodeId} {e : Expr} (hv : v ∈ t.walk root) (h : (t.node v).Predicate nested e) :
    e.InScope ((t.walk root).map t.aliasOf) ∨ ∃ own ∈ (t.walk root).map t.aliasOf, ∃ column op,
      ∃ there ∈ t.outerColumns root,
        e = .binary (.column own column) op (.column there.1 there.2) := by
  have mem : t.aliasOf v ∈ (t.walk root).map t.aliasOf := List.mem_map_of_mem hv
  have column (c : String) : (Expr.column (t.aliasOf v) c).InScope ((t.walk root).map t.aliasOf) :=
    (Expr.Local.column _ c).of mem
  cases h with
  | own h => exact Or.inl (h.of mem)
  | @outer c op there outer =>
      exact Or.inr ⟨t.aliasOf v, mem, c, op, there, List.mem_flatMap.mpr ⟨v, hv, outer⟩, rfl⟩
  | inSelect => exact Or.inl (.inSelect (column _))
  | existsSelect => exact Or.inl .existsSelect

namespace Assembled

variable {rootPart : Part} {joined : List (Part × Sql.JoinItem)} {inner : Select} {e : Expr}

/-- Whatever is in a clause of the parts was brought in by a node of the walk. -/
theorem origin (h : t.Assembled nested root rootPart joined) (sound : t.Sound)
    (hroot : root < t.nodes.length) {α : Type} {clause : Part → List α} {x : α}
    (hx : x ∈ (rootPart :: joined.map (·.1)).flatMap clause) :
    ∃ v ∈ t.walk root, ∃ p, p.Of nested (t.node v) ∧ x ∈ clause p := by
  obtain ⟨p, hp, hx⟩ := List.mem_flatMap.mp hx
  obtain ⟨v, hv, made⟩ := Outcome.forall₂_mem_right (h.parts sound hroot) hp
  exact ⟨v, hv, p, part_of made, hx⟩

theorem aliases_eq (h : t.Assembled nested root rootPart joined) (sound : t.Sound)
    (hroot : root < t.nodes.length) :
    (assemble (t.node root) rootPart joined).aliases = (t.walk root).map t.aliasOf := by
  rw [sound.walk_cons hroot]
  exact aliases_assemble rfl rfl h.behind

/-- The condition of a join equates columns of a table before it with its own. -/
theorem on_earlier (h : t.Assembled nested root rootPart joined) (sound : t.Sound)
    (hroot : root < t.nodes.length) {before after : List Sql.JoinItem} {j : Sql.JoinItem}
    (split : joined.map (·.2) = before ++ j :: after) : ∃ own conditions,
      j.aliasName = some own ∧ Expr.conjunction conditions = some j.on ∧ ∀ c ∈ conditions,
        ∃ earlier ∈ { assemble (t.node root) rootPart joined with joins := before }.aliases,
          ∃ left right, c = .binary (.column earlier left) .eq (.column own right) := by
  obtain ⟨joinedBefore, rest, rfl, rfl, restEq⟩ := List.map_eq_append_iff.mp split
  obtain ⟨pair, joinedAfter, rfl, rfl, rfl⟩ := List.map_eq_cons_iff.mp restEq
  obtain ⟨ids, id, rest, tail, before, made⟩ := Outcome.forall₂_split h.behind
  obtain ⟨parent, conditions, hparent, own, on, equations⟩ := on_of_joinedPart made
  have walk : t.walk root = (root :: ids) ++ id :: rest := by
    rw [sound.walk_cons hroot, tail, List.cons_append]
  -- The node that the walk has listed before may be another one than the parent, but it has the
  -- same origin.
  obtain ⟨u, hu, child⟩ := sound.linked.walk_preceded walk (List.cons_ne_nil _ _)
  have listed : u ∈ t.walk root := walk ▸ List.mem_append_left _ hu
  have same := sound.aliasOf_parent (sound.walk_lt hroot listed) hparent child
  refine ⟨t.aliasOf id, conditions, own, on, fun c hc => ⟨t.aliasOf parent, ?_, equations c hc⟩⟩
  rw [@aliases_assemble nested t root _ rootPart.source ids joinedBefore rfl rfl before, ← same]
  exact List.mem_map_of_mem hu

theorem wellScoped (h : t.Assembled nested root rootPart joined) (sound : t.Sound)
    (hroot : root < t.nodes.length) :
    (assemble (t.node root) rootPart joined).WellScoped (t.outerColumns root) := by
  have aliases := h.aliases_eq sound hroot
  have mem {v : NodeId} (hv : v ∈ t.walk root) : t.aliasOf v ∈ (t.walk root).map t.aliasOf :=
    List.mem_map_of_mem hv
  constructor
  case named =>
    rw [aliases, List.length_map, sound.walk_cons hroot, List.length_cons, h.behind.length_eq]
    exact congrArg (· + 1) (List.length_map _).symm
  case distinct =>
    rw [aliases]
    exact sound.nodup_aliases hroot
  case on => exact fun before j after split => h.on_earlier sound hroot split
  case columns =>
    intro e he
    obtain ⟨v, hv, p, made, he⟩ := h.origin sound hroot he
    rw [aliases]
    exact (made.columns e he).of (mem hv)
  case condition =>
    intro e he
    refine ⟨_, he, fun predicate hpredicate => ?_⟩
    obtain ⟨v, hv, p, made, hpredicate⟩ := h.origin sound hroot hpredicate
    rw [aliases]
    exact predicate_scope hv (made.predicates predicate hpredicate)
  case groups =>
    intro e he
    obtain ⟨v, hv, p, made, he⟩ := h.origin sound hroot he
    rw [aliases]
    exact (made.groups e he).of (mem hv)
  case having =>
    intro e he
    rw [aliases]
    refine Expr.conjunction_induction (fun a b ha hb => .binary ha hb) (fun e he => ?_) he
    obtain ⟨v, hv, p, made, he⟩ := h.origin sound hroot he
    exact (made.having e he).of (mem hv)
  case order =>
    intro o ho
    obtain ⟨v, hv, p, made, ho⟩ := h.origin sound hroot ho
    rw [aliases]
    exact (made.order o ho).of (mem hv)

/-- No query stands in the condition of a join. -/
theorem on_plain (h : t.Assembled nested root rootPart joined) {j : Sql.JoinItem}
    (hj : j ∈ joined.map (·.2)) : ¬ j.on.Nests inner := by
  intro within
  obtain ⟨pair, hpair, rfl⟩ := List.mem_map.mp hj
  obtain ⟨id, -, made⟩ := Outcome.forall₂_mem_right h.behind hpair
  obtain ⟨parent, conditions, -, -, on, equations⟩ := on_of_joinedPart made
  obtain ⟨c, hc, within⟩ := Expr.conjunction_nests on within
  obtain ⟨left, right, rfl⟩ := equations c hc
  cases within with
  | left within => exact (Expr.Local.column _ _).plain inner within
  | right within => exact (Expr.Local.column _ _).plain inner within

/-- A query in an expression stands in a filter. -/
theorem nests_expression (h : t.Assembled nested root rootPart joined) (sound : t.Sound)
    (hroot : root < t.nodes.length)
    (he : e ∈ (assemble (t.node root) rootPart joined).expressions) (within : e.Nests inner) :
    ∃ v ∈ t.walk root, ∃ q ∈ (t.node v).queries, nested q = .ok inner := by
  have value {limit : Option UInt64}
      (he : e ∈ (limit.map fun n => Expr.value (.uint n)).toList) : ¬ e.Nests inner := by
    obtain ⟨n, -, rfl⟩ := Option.map_eq_some_iff.mp (Option.mem_toList.mp he)
    exact (Expr.Local.value "" _).plain inner
  simp only [Select.expressions, List.mem_append] at he
  rcases he with ((((((columns | on) | condition) | groups) | having) | order) | limit) | offset
  · obtain ⟨v, -, p, made, he⟩ := h.origin sound hroot columns
    exact absurd within ((made.columns e he).plain inner)
  · obtain ⟨j, hj, rfl⟩ := List.mem_map.mp on
    exact absurd within (h.on_plain hj)
  · obtain ⟨predicate, hpredicate, within⟩ :=
      Expr.conjunction_nests (Option.mem_toList.mp condition) within
    obtain ⟨v, hv, p, made, hpredicate⟩ := h.origin sound hroot hpredicate
    exact ⟨v, hv, (made.predicates predicate hpredicate).nests within⟩
  · obtain ⟨v, -, p, made, he⟩ := h.origin sound hroot groups
    exact absurd within ((made.groups e he).plain inner)
  · obtain ⟨e', he', within⟩ := Expr.conjunction_nests (Option.mem_toList.mp having) within
    obtain ⟨v, -, p, made, he'⟩ := h.origin sound hroot he'
    exact absurd within ((made.having e' he').plain inner)
  · obtain ⟨o, ho, rfl⟩ := List.mem_map.mp order
    obtain ⟨v, -, p, made, ho⟩ := h.origin sound hroot ho
    exact absurd within ((made.order o ho).plain inner)
  · exact absurd within (value limit)
  · exact absurd within (value offset)

/-- A query in the place of a table is what a node of the walk takes its rows from. -/
theorem nests_source (h : t.Assembled nested root rootPart joined) (sound : t.Sound)
    (hroot : root < t.nodes.length)
    (source : .select inner ∈ (assemble (t.node root) rootPart joined).sources) :
    ∃ v ∈ t.walk root, ∃ q ∈ (t.node v).queries, nested q = .ok inner := by
  have taken {p : Part} (hp : p ∈ rootPart :: joined.map (·.1)) (same : p.source = .select inner) :
      ∃ v ∈ t.walk root, ∃ q ∈ (t.node v).queries, nested q = .ok inner := by
    obtain ⟨v, hv, made⟩ := Outcome.forall₂_mem_right (h.parts sound hroot) hp
    exact ⟨v, hv, (part_of made).source inner same⟩
  rcases List.mem_append.mp source with first | join
  · exact taken List.mem_cons_self (List.mem_singleton.mp first).symm
  · obtain ⟨j, hj, same⟩ := List.mem_map.mp join
    obtain ⟨pair, hpair, rfl⟩ := List.mem_map.mp hj
    obtain ⟨id, -, made⟩ := Outcome.forall₂_mem_right h.behind hpair
    obtain ⟨edge, parent, on, -, -, -, item⟩ := joinItem_ok (joinedPart_ok made).2
    refine taken (List.mem_cons_of_mem _ (List.mem_map_of_mem hpair)) ?_
    rw [← same, item]

end Assembled

namespace Sound

/-- **The query of a sound tree is well scoped.** -/
theorem wellScoped (sound : t.Sound) (hroot : root < t.nodes.length) {s : Select}
    (h : t.select nested root = .ok s) : s.WellScoped (t.outerColumns root) := by
  obtain ⟨-, rootPart, joined, assembled, rfl, -⟩ := sound.select_ok hroot h
  exact assembled.wellScoped sound hroot

/-- **A query in the query of a sound tree is one that a node of the walk nests.** -/
theorem nests (sound : t.Sound) (hroot : root < t.nodes.length) {s inner : Select}
    (h : t.select nested root = .ok s) (within : s.Nests inner) :
    ∃ v ∈ t.walk root, ∃ q ∈ (t.node v).queries, nested q = .ok inner := by
  obtain ⟨-, rootPart, joined, assembled, rfl, -⟩ := sound.select_ok hroot h
  rcases within with ⟨e, he, within⟩ | source
  · exact assembled.nests_expression sound hroot he within
  · exact assembled.nests_source sound hroot source

end Sound

end Tree

end QueryForest
