import QueryForest.Proofs.Forest.Projection
import QueryForest.Proofs.Forest.Reserved
import QueryForest.Proofs.Forest.Walks
import QueryForest.Proofs.Tree.Clauses

set_option autoImplicit false

/-!
# Correlated queries

A filter of a query may compare with a column of the node from which the query was begun. In the text
this column is looked up by its alias, in the innermost query first. When all aliases of the inner query
are derived, none of its tables goes by this alias, whatever is done to both queries after the inner one
was begun. So the lookup leaves the inner query and ends at the one table of the outer query that stands
for the node (`correlation_subQuery`).
-/

namespace QueryForest

open Sql (Expr Select)

/-! ## Looking up aliases -/

namespace Sql

/-- The tables of a query: the one that it begins with, and those of its joins. -/
def Select.tables (s : Select) : List FromItem :=
  s.source.toList ++ s.joins.map fun j => ⟨j.source, j.aliasName⟩

/-- Where an alias is found that is looked up in the first of some queries, then in the next one, which
is around it, and so on: in which of the queries, and in which place among its tables. -/
def lookup (aliasName : String) : List Select → Option (Nat × Nat)
  | [] => none
  | s :: around =>
    match s.tables.findIdx? (·.aliasName = some aliasName) with
    | some k => some (0, k)
    | none => (lookup aliasName around).map fun found => (found.1 + 1, found.2)

end Sql

namespace Node

variable {n : Node} {nested : NodeRef → Except QueryError Select}

/-- The predicate of a filter by a query has the query in it. -/
theorem filterExpr_nests {p : Filter} {e : Expr} {q : NodeRef} (h : n.filterExpr nested p = .ok e)
    (query : p.query? = some q) : ∃ s, nested q = .ok s ∧ e.Nests s := by
  cases p with
  | inQuery c query' negated =>
      obtain rfl : query' = q := Option.some.inj query
      obtain ⟨s, made, h⟩ := Outcome.bind_ok h
      obtain rfl := Except.ok.inj h
      exact ⟨s, made, .inSelect⟩
  | existsQuery query' negated =>
      obtain rfl : query' = q := Option.some.inj query
      obtain ⟨s, made, h⟩ := Outcome.bind_ok h
      obtain rfl := Except.ok.inj h
      exact ⟨s, made, .existsSelect⟩
  | compare | inList | isNull | outer => exact absurd query nofun

end Node

namespace Tree

variable {t : Tree} {root : NodeId} {nested : NodeRef → Except QueryError Select} {s : Select}

/-- The tables of a query go by the aliases of the nodes of the walk. -/
theorem Sound.tables_aliases (sound : t.Sound) (hroot : root < t.nodes.length)
    (h : t.select nested root = .ok s) :
    s.tables.map (·.aliasName) = (t.walk root).map fun v => some (t.aliasOf v) := by
  obtain ⟨⟨source, -, first⟩, joins⟩ := sound.select_tables hroot h
  have behind : s.joins.map (·.aliasName) = (t.walk root).tail.map fun v => some (t.aliasOf v) := by
    rw [← List.forall₂_eq_eq_eq, List.forall₂_map_left_iff, List.forall₂_map_right_iff]
    exact joins.flip.imp fun item v writes => writes.aliasName
  rw [Select.tables, first, sound.walk_cons hroot, List.map_append, List.map_map, List.map_cons, ← behind]
  rfl

/-- The table of an alias has the place of the node that goes by it. -/
theorem Sound.findIdx?_tables (sound : t.Sound) (hroot : root < t.nodes.length)
    (h : t.select nested root = .ok s) (aliasName : String) :
    s.tables.findIdx? (·.aliasName = some aliasName)
      = (t.walk root).findIdx? (t.aliasOf · = aliasName) := by
  calc s.tables.findIdx? (·.aliasName = some aliasName)
      = (s.tables.map (·.aliasName)).findIdx? (· = some aliasName) := by
        rw [List.findIdx?_map]
        rfl
    _ = ((t.walk root).map fun v => some (t.aliasOf v)).findIdx? (· = some aliasName) := by
        rw [sound.tables_aliases hroot h]
    _ = (t.walk root).findIdx? (t.aliasOf · = aliasName) := by
        rw [List.findIdx?_map]
        simp only [Function.comp_def, Option.some.injEq]

/-- No two tables go by one alias. -/
theorem Sound.countP_tables (sound : t.Sound) (hroot : root < t.nodes.length)
    (h : t.select nested root = .ok s) {v : NodeId} (hv : v ∈ t.walk root) :
    s.tables.countP (·.aliasName = some (t.aliasOf v)) = 1 := by
  calc s.tables.countP (·.aliasName = some (t.aliasOf v))
      = (s.tables.map (·.aliasName)).countP (· = some (t.aliasOf v)) := by
        rw [List.countP_map]
        rfl
    _ = ((t.walk root).map t.aliasOf).countP (· = t.aliasOf v) := by
        rw [sound.tables_aliases hroot h, List.countP_map, List.countP_map]
        simp only [Function.comp_def, Option.some.injEq]
    _ = ((t.walk root).map t.aliasOf).count (t.aliasOf v) := by
        rw [List.count]
        rfl
    _ = 1 := List.count_eq_one_of_mem (sound.nodup_aliases hroot) (List.mem_map_of_mem hv)

/-- In a complete tree the walk from the root lists the origin of every node. -/
theorem Sound.origin_mem_walk (sound : t.Sound) (complete : t.Complete) {v : NodeId}
    (hv : v < t.nodes.length) : t.origin v ∈ t.walk 0 := by
  have linked := sound.linked
  refine (linked.mem_walk linked.nonempty).mpr ?_
  rcases linked.join_of_origin _ (linked.origin_lt v hv) (linked.origin_origin v hv) with root | isJoin
  · exact Or.inl root
  · rw [linked.root_origin]
    exact Or.inr (complete.below_root linked isJoin)

/-- In the query from the root, the alias of every node leads to one table, that of the origin of the
node. -/
theorem Sound.findIdx?_aliasOf (sound : t.Sound) (h : t.select nested 0 = .ok s) {id : NodeId}
    (hid : id < t.nodes.length) : ∃ k u, s.tables.findIdx? (·.aliasName = some (t.aliasOf id)) = some k ∧
      (t.walk 0)[k]? = some u ∧ t.origin u = t.origin id ∧
      s.tables.countP (·.aliasName = some (t.aliasOf id)) = 1 := by
  have root : 0 < t.nodes.length := sound.linked.nonempty
  obtain ⟨complete, -⟩ := sound.select_ok root h
  have listed : t.origin id ∈ t.walk 0 := sound.origin_mem_walk complete hid
  obtain ⟨k, place⟩ : ∃ k, (t.walk 0).findIdx? (t.aliasOf · = t.aliasOf id) = some k := by
    refine Option.isSome_iff_exists.mp (List.findIdx?_isSome.trans ?_)
    exact List.any_eq_true.mpr ⟨_, listed, decide_eq_true (sound.named.aliasOf_origin id hid)⟩
  obtain ⟨inWalk, found, -⟩ := List.findIdx?_eq_some_iff_getElem.mp place
  have same : t.aliasOf (t.walk 0)[k] = t.aliasOf id := of_decide_eq_true found
  have mem : (t.walk 0)[k] ∈ t.walk 0 := List.getElem_mem inWalk
  refine ⟨k, (t.walk 0)[k], ?_, List.getElem?_eq_getElem inWalk, ?_, ?_⟩
  · rw [sound.findIdx?_tables root h, place]
  · exact (sound.named.aliasOf_inj sound.linked (sound.walk_lt root mem) hid).mp same
  · rw [← same]
    exact sound.countP_tables root h mem

end Tree

/-! ## Correlated filters -/

namespace Forest

variable {f g : Forest} {n q : NodeRef} {host inner : Tree}

/-- What is known of the correlated filters of a query that stands in another one, when they compare with
columns of the node `n`: `s'` is the query of a node `q` of the tree `inner`, and `s` that of the root of
the tree `host`. -/
structure Correlates (host inner : Tree) (n q : NodeRef) (s s' : Select) : Prop where
  /-- The query stands in one of the predicates around it. -/
  nested : ∃ e ∈ Sql.conjuncts s.condition, e.Nests s'
  /-- Each correlated filter is written with the alias of the node. -/
  written : ∀ w ∈ inner.walk q.node, ∀ c comparison aliasName column,
    .outer c comparison aliasName column ∈ (inner.node w).filters →
      .binary (.column (inner.aliasOf w) c.column) comparison.operator
        (.column (host.aliasOf n.node) column) ∈ Sql.conjuncts s'.condition
  /-- The alias is found in the query around, at the table of the node. -/
  found : ∃ k u, Sql.lookup (host.aliasOf n.node) [s', s] = some (1, k) ∧
    (host.walk 0)[k]? = some u ∧ host.origin u = host.origin n.node
  /-- No other table there goes by it. -/
  alone : s.tables.countP (·.aliasName = some (host.aliasOf n.node)) = 1
  /-- No table of the query itself goes by it. -/
  hidden : ∀ table ∈ s'.tables, table.aliasName ≠ some (host.aliasOf n.node)

/-- A filter that is correlated with the query around its own has recorded the alias of the node from which
its query was begun. -/
theorem outer_recorded {actions : List Action} (admitted : empty.admits actions)
    (ht : (empty.run actions).tree? q.tree = some inner)
    (one : ∀ s o, s.tree = q.tree → ((empty.run actions).node s).outer = some o → o = n) {w : NodeId}
    (hw : w < inner.nodes.length) {c : ColumnRef} {comparison : Sql.Comparison}
    {aliasName column : String}
    (mem : .outer c comparison aliasName column ∈ (inner.node w).filters) :
    aliasName = ((empty.run actions).node n).aliasName := by
  have lists : (inner.node w).Lists (inner.surroundings (empty.run actions) w)
      (chronicleOf actions ⟨q.tree, w⟩) := told_run Node.lists_faithful admitted ht hw
  obtain ⟨call, -, made⟩ := lists.exists_call mem
  have outer : ((inner.node w).outer.map fun o => ((empty.run actions).node o).aliasName)
      = some aliasName := Change.outer_of_added? made
  obtain ⟨o, around, rfl⟩ := Option.map_eq_some_iff.mp outer
  have same : o = n := one ⟨q.tree, w⟩ o rfl (by rw [node_eq (r := ⟨q.tree, w⟩) ht, around])
  rw [same]

/-- A query whose nodes do not have the alias of the node that its filters are correlated with finds this
node in the query around it. -/
theorem correlates_run {actions : List Action} (admitted : empty.admits actions)
    (hhost : (empty.run actions).tree? n.tree = some host) (small : n.node < host.nodes.length)
    (hinner : (empty.run actions).tree? q.tree = some inner)
    (apart : ∀ v < inner.nodes.length, inner.aliasOf v ≠ host.aliasOf n.node)
    (recorded : ∀ w < inner.nodes.length, ∀ c comparison aliasName column,
      .outer c comparison aliasName column ∈ (inner.node w).filters → aliasName = host.aliasOf n.node)
    {s : Select} (made : (empty.run actions).select ⟨n.tree, 0⟩ = .ok s) {v : NodeId}
    (hv : v ∈ host.walk 0) {p : Filter} (hp : p ∈ (host.node v).filters) (query : p.query? = some q) :
    ∃ s', (empty.run actions).select q = .ok s' ∧ Correlates host inner n q s s' := by
  have sound : (empty.run actions).Sound := Reachable.sound ⟨actions, admitted, rfl⟩
  have soundHost := sound.tree n.tree host hhost
  have soundInner := sound.tree q.tree inner hinner
  have root : 0 < host.nodes.length := soundHost.linked.nonempty
  have lists {i : TreeId} {t : Tree} (ht : (empty.run actions).tree? i = some t) {w : NodeId}
      (hw : w < t.nodes.length) :
      (t.node w).Lists (t.surroundings (empty.run actions) w) (changesIn actions i w) :=
    told_run Node.lists_faithful admitted ht hw
  -- The query stands in the predicate of its filter.
  rw [sound.select_eq (r := ⟨n.tree, 0⟩) hhost] at made
  have clauses := soundHost.select_clauses root (fun w hw => lists hhost hw) made
  obtain ⟨e, he, written⟩ :=
    clauses.predicate (lists hhost (soundHost.walk_lt root hv)) hv hp
  obtain ⟨s', madeInner, nests⟩ := Node.filterExpr_nests written query
  have hq : (empty.run actions).hasNode q := by
    have mem : q ∈ (host.node v).queries := Node.mem_queries.mpr (Or.inr ⟨p, hp, query⟩)
    exact sound.hasNode_queries (r := ⟨n.tree, 0⟩) hhost (Tree.mem_queries_of_node mem)
  have smallInner : q.node < inner.nodes.length := lt_of_hasNode hinner hq
  have madeTree := madeInner
  rw [sound.select_eq hinner] at madeTree
  have clausesInner := soundInner.select_clauses smallInner (fun w hw => lists hinner hw) madeTree
  -- The lookup passes over the tables of the query, and then finds that of the node.
  have passed : s'.tables.findIdx? (·.aliasName = some (host.aliasOf n.node)) = none := by
    rw [soundInner.findIdx?_tables smallInner madeTree, List.findIdx?_eq_none_iff]
    exact fun w hw => decide_eq_false (apart w (soundInner.walk_lt smallInner hw))
  obtain ⟨k, u, outside, inWalk, origin, alone⟩ := soundHost.findIdx?_aliasOf made small
  refine ⟨s', madeInner, ?_⟩
  constructor
  case nested => exact ⟨e, he, nests⟩
  case written =>
    intro w hw c comparison aliasName column mem
    have there := soundInner.walk_lt smallInner hw
    obtain ⟨e, he, written⟩ := clausesInner.predicate (lists hinner there) hw mem
    obtain rfl := Except.ok.inj written
    rwa [recorded w there c comparison aliasName column mem] at he
  case found =>
    refine ⟨k, u, ?_, inWalk, origin⟩
    simp only [Sql.lookup, passed, outside, Option.map_some]
  case alone => exact alone
  case hidden =>
    exact fun table mem => of_decide_eq_false (List.findIdx?_eq_none_iff.mp passed table mem)

/-- **Queries are never captured under derived aliases.** A query is begun from a node of another one, and
its joins get no aliases from the caller, whatever else is done to both. Then no node of it has the alias
of this node. When it stands in a filter of a node of the other query, each of its correlated filters is
written with this alias, and the lookup of it, the innermost query first, ends at the one table that stands
for the node. -/
theorem correlation_subQuery (h : f.Reachable) (hn : f.hasNode n) (entity : Entity)
    (began : f.after (.call (.subQuery n entity none)) = g) {later : List Action}
    (admitted : g.admits later) (derived : g.derives f.trees.length later) :
    ∃ inner host, (g.run later).tree? f.trees.length = some inner ∧
      (g.run later).tree? n.tree = some host ∧
      (∀ v < inner.nodes.length, inner.aliasOf v ≠ host.aliasOf n.node) ∧
      (∀ w < inner.nodes.length, ∀ c comparison aliasName column,
        .outer c comparison aliasName column ∈ (inner.node w).filters →
          aliasName = host.aliasOf n.node) ∧
      ∀ s, (g.run later).select ⟨n.tree, 0⟩ = .ok s →
        ∀ v ∈ host.walk 0, ∀ p ∈ (host.node v).filters, ∀ q, p.query? = some q →
          q.tree = f.trees.length →
            ∃ s', (g.run later).select q = .ok s' ∧ Correlates host inner n q s s' := by
  obtain ⟨actions, admittedBefore, rfl⟩ := h
  let begin : Action := .call (.subQuery n entity none)
  have sound : (empty.run actions).Sound := Reachable.sound ⟨actions, admittedBefore, rfl⟩
  have there : ∀ r ∈ begin.nodes, (empty.run actions).hasNode r := by
    intro r hr
    rw [List.mem_singleton.mp hr]
    exact hn
  have first : (empty.run actions).Steps _ g := began ▸ sound.after_steps begin there
  have soundThen : g.Sound := first.sound sound
  have rest := soundThen.run_steps later admitted
  -- The tree of the query, which keeps out the names that were there when it was begun.
  obtain ⟨t, begun⟩ := began ▸ begun_subQuery hn entity
  obtain ⟨inner, hinner, avoids⟩ :=
    soundThen.run_avoids admitted derived begun.tree begun.avoids
  obtain ⟨inner', hinner', -, reserved⟩ := rest.settled begun.tree
  obtain rfl : inner = inner' := Option.some.inj (hinner.symm.trans hinner')
  have one := rest.outer begun.tree begun.outer
  -- The tree around it, where the node has kept its alias.
  obtain ⟨old, hold, small⟩ := hasNode_iff.mp hn
  obtain ⟨host, hhost, kept⟩ := (first.trans rest).kept n.tree old hold
  -- The whole run, from the empty forest on.
  have whole : g.run later = empty.run (actions ++ begin :: later) := by
    rw [run_append, ← began]
    rfl
  have admittedWhole : empty.admits (actions ++ begin :: later) := by
    rw [admits_append, Bool.and_eq_true]
    exact ⟨admittedBefore, admits_cons.mpr ⟨there, began ▸ admitted⟩⟩
  rw [whole] at hinner hhost one ⊢
  have final : (empty.run (actions ++ begin :: later)).Sound :=
    Reachable.sound ⟨_, admittedWhole, rfl⟩
  have apart : ∀ v < inner.nodes.length, inner.aliasOf v ≠ host.aliasOf n.node := by
    intro v hv same
    refine avoids _ ((final.tree _ inner hinner).aliasOf_mem_names hv) ?_
    rw [reserved, begun.reserved old hold, same, kept.aliasOf n.node small]
    exact (sound.tree n.tree old hold).aliasOf_mem_names small
  have recorded : ∀ w < inner.nodes.length, ∀ c comparison aliasName column,
      .outer c comparison aliasName column ∈ (inner.node w).filters →
        aliasName = host.aliasOf n.node := by
    intro w hw c comparison aliasName column mem
    have found := @outer_recorded n ⟨(empty.run actions).trees.length, 0⟩ inner _ admittedWhole hinner
      one w hw c comparison aliasName column mem
    rwa [node_eq hhost] at found
  refine ⟨inner, host, hinner, hhost, apart, recorded, fun s made v hv p hp q query inTree => ?_⟩
  exact correlates_run admittedWhole hhost (Nat.lt_of_lt_of_le small kept.length) (inTree ▸ hinner) apart
    recorded made hv hp query

/-- An order with its items, which go by a derived alias. -/
def itemized : List Action :=
  [.call (.root {} ⟨"order", "Order", "orders"⟩ (some "o") {}),
    .hold "orders" ⟨0, 0⟩,
    .call (.change ⟨0, 0⟩ (.select (.column "id") none)),
    .call (.join ⟨0, 0⟩ ⟨"item", "Item", "items"⟩ .inner none),
    .call (.change ⟨0, 1⟩ (.onWith (.column "id") (.column "order_id"))),
    .call (.attach ⟨0, 1⟩)]

/-- What is done after a query for items was begun from the items: it gets one more join, the order is given
a join under the alias of the query, and the query is correlated with the items and put into a filter. -/
def entangled : List Action :=
  [.call (.join ⟨1, 0⟩ ⟨"item", "Item", "items"⟩ .left none),
    .call (.change ⟨1, 1⟩ (.onWith (.column "parent_id") (.column "id"))),
    .call (.attach ⟨1, 1⟩),
    .call (.join ⟨0, 0⟩ ⟨"customer", "Customer", "customers"⟩ .inner (some "i1")),
    .call (.change ⟨0, 2⟩ (.onWith (.column "customer_id") (.column "id"))),
    .call (.attach ⟨0, 2⟩),
    .call (.change ⟨1, 0⟩ (.select (.column "id") none)),
    .call (.change ⟨1, 0⟩ (.correlate (.column "name") .eq ⟨"item", "Item", "items"⟩ (.column "name"))),
    .call (.change ⟨0, 0⟩ (.existsQuery ⟨1, 0⟩ false))]

/-- The forest after the query for items was begun, from the items of the order. -/
def itemizedTwice : Forest :=
  (empty.run itemized).after (.call (.subQuery ⟨0, 1⟩ ⟨"item", "Item", "items"⟩ none))

set_option maxRecDepth 2000 in
/-- A table around the query goes by the alias of the query, but it is not the one that the query is
correlated with. -/
theorem correlation_subQuery_entangled : ∃ inner host s s',
    (itemizedTwice.run entangled).select ⟨0, 0⟩ = .ok s ∧
    (itemizedTwice.run entangled).select ⟨1, 0⟩ = .ok s' ∧
    Correlates host inner ⟨0, 1⟩ ⟨1, 0⟩ s s' ∧ host.aliasOf 1 = "i" ∧
    s.tables.map (·.aliasName) = [some "o", some "i", some "i1"] ∧
    s'.tables.map (·.aliasName) = [some "i1", some "i2"] ∧
    .binary (.column "i1" "name") .eq (.column "i" "name") ∈ Sql.conjuncts s'.condition := by
  have reachable : (empty.run itemized).Reachable := ⟨itemized, by decide, rfl⟩
  have tables {x : Except QueryError Select} {aliases : List (Option String)}
      (h : x.toOption.map (·.tables.map (·.aliasName)) = some aliases) :
      ∃ s, x = .ok s ∧ s.tables.map (·.aliasName) = aliases := by
    cases x with
    | error => exact absurd h nofun
    | ok s => exact ⟨s, rfl, Option.some.inj h⟩
  obtain ⟨s, made, around⟩ : ∃ s, (itemizedTwice.run entangled).select ⟨0, 0⟩ = .ok s ∧
      s.tables.map (·.aliasName) = [some "o", some "i", some "i1"] := tables (by decide +kernel)
  obtain ⟨s', made', inside⟩ : ∃ s, (itemizedTwice.run entangled).select ⟨1, 0⟩ = .ok s ∧
      s.tables.map (·.aliasName) = [some "i1", some "i2"] := tables (by decide +kernel)
  have admitted : itemizedTwice.admits entangled := by decide +kernel
  have derived : itemizedTwice.derives (empty.run itemized).trees.length entangled := by decide +kernel
  obtain ⟨inner, host, hinner, hhost, -, -, correlates⟩ :=
    @correlation_subQuery _ _ ⟨0, 1⟩ reachable (by decide) ⟨"item", "Item", "items"⟩ rfl entangled
      admitted derived
  -- What is needed of the two trees is read off the forest.
  have outside : ((itemizedTwice.run entangled).tree? 0).map
      (fun t => (t.walk 0, t.aliasOf 1)) = some ([0, 1, 2], "i") := by decide +kernel
  have filters : ((itemizedTwice.run entangled).tree? 0).map (fun t => (t.node 0).filters)
      = some [.existsQuery ⟨1, 0⟩ false] := rfl
  have within : ((itemizedTwice.run entangled).tree? 1).map
      (fun t => (t.walk 0, t.aliasOf 0)) = some ([0, 1], "i1") := by decide +kernel
  have filtersWithin : ((itemizedTwice.run entangled).tree? 1).map (fun t => (t.node 0).filters)
      = some [.outer ⟨"name", none⟩ .eq "i" "name"] := rfl
  rw [show (itemizedTwice.run entangled).tree? 0 = some host from hhost] at outside filters
  rw [show (itemizedTwice.run entangled).tree? 1 = some inner from hinner] at within filtersWithin
  obtain ⟨order, aliasName⟩ := Prod.mk.inj (Option.some.inj outside)
  obtain ⟨orderWithin, aliasWithin⟩ := Prod.mk.inj (Option.some.inj within)
  have only : (host.node 0).filters = [.existsQuery ⟨1, 0⟩ false] := Option.some.inj filters
  have onlyWithin : (inner.node 0).filters = [.outer ⟨"name", none⟩ .eq "i" "name"] :=
    Option.some.inj filtersWithin
  obtain ⟨_, again, correlates⟩ := correlates s made 0 (order ▸ List.mem_cons_self)
    (.existsQuery ⟨1, 0⟩ false) (only ▸ List.mem_cons_self) ⟨1, 0⟩ rfl rfl
  obtain rfl := Except.ok.inj (made'.symm.trans again)
  have written := correlates.written 0 (orderWithin ▸ List.mem_cons_self) ⟨"name", none⟩ .eq "i" "name"
    (onlyWithin ▸ List.mem_cons_self)
  rw [aliasWithin, aliasName] at written
  exact ⟨inner, host, s, s', made, made', correlates, aliasName, around, inside, written⟩

end Forest

end QueryForest
