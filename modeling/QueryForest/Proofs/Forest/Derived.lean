import QueryForest.Proofs.Forest.Actions
import QueryForest.Proofs.Forest.Capture
import QueryForest.Proofs.Forest.Mentions
import QueryForest.Proofs.Tree.OutputNames

set_option autoImplicit false

/-!
# Columns of queries in the place of tables

A property of a joined query is looked up like one of a table: it names the column that the mapping gives
for it. The query itself gives its columns their names when it is written. So a property finds the column
that the query has for it just when the query names this by its column, and not by the property
(`derived_references`).
-/

namespace QueryForest

open Sql (Expr Select Reference)

namespace Tree

variable {f : Forest} {t : Tree} {root v : NodeId} {nested : NodeRef → Except QueryError Select}
  {s : Select}

/-- Every node of the walk has its table. -/
theorem Sound.table_of_node (sound : t.Sound) (hroot : root < t.nodes.length)
    (h : t.select nested root = .ok s) (hv : v ∈ t.walk root) :
    ∃ source, (t.node v).tableSource nested = .ok source ∧
      ⟨source, some (t.aliasOf v)⟩ ∈ s.tables := by
  obtain ⟨⟨source, made, first⟩, joins⟩ := sound.select_tables hroot h
  rw [sound.walk_cons hroot] at hv
  rcases List.mem_cons.mp hv with rfl | behind
  · refine ⟨source, made, List.mem_append_left _ ?_⟩
    rw [first]
    exact List.mem_singleton_self _
  · obtain ⟨item, mem, writes⟩ := Outcome.forall₂_mem_left joins behind
    refine ⟨item.source, writes.source, List.mem_append_right _ (List.mem_map.mpr ⟨item, mem, ?_⟩)⟩
    rw [writes.aliasName]

/-- An own column stands behind the alias of its node, by its name in the mapping. -/
theorem Stands.own_column {target : Target} {written : Reference}
    (stands : t.Stands f ⟨v, .own, target⟩ written) :
    ∃ c, t.column v target = .ok c ∧ written = (some (t.aliasOf v), c.column) := by
  cases stands with
  | own found => exact ⟨_, found, rfl⟩

end Tree

namespace Forest

variable {f g : Forest} {a : Action} {r : NodeRef} {log : List (NodeRef × NodeRef)}

/-! ## Entities of joined queries -/

/-- Whether all nodes that take their rows from a query take over its entity. -/
def Supplied (f : Forest) : Prop := ∀ r, f.hasNode r → f.Supplies (f.node r).source

theorem supplied_empty : empty.Supplied := fun _ hr => absurd (hasNode_lt hr) (Nat.not_lt_zero _)

theorem Supplies.mono {source : NodeSource} (h : f.Supplies source) (steps : Steps f log g) :
    g.Supplies source := by
  intro q e same
  obtain ⟨there, entity⟩ := h q e same
  have kept := steps.constant Node.constant_source there
  exact ⟨steps.kept.hasNode there, by rw [Node.entity, kept]; exact entity⟩

/-- An action supplies what takes its rows from a query: this is a join of the query, or a branch. -/
theorem Does.supplies (does : f.Does a g) (supplied : f.Supplied)
    (kept : ∀ r, f.hasNode r → (g.node r).source = (f.node r).source) (hr : g.hasNode r) :
    f.Supplies (g.node r).source := by
  have old (there : f.hasNode r) : f.Supplies (g.node r).source := kept r there ▸ supplied r there
  cases does with
  | nothing quiet trees =>
      refine old ?_
      rwa [hasNode, tree?, trees] at hr
  | begin begins source length updated =>
      rcases (updated.hasNode r).mp hr with there | rfl
      · exact old there
      · rw [updated.node_self, source]
        exact supplies_entity f _
  | @branch s v quiet length new there updated =>
      rcases (updated.hasNode r).mp hr with there | rfl
      · exact old there
      · rw [updated.node_self]
        exact supplied v there
  | join quiet length new supplies updated =>
      rcases (updated.hasNode r).mp hr with there | rfl
      · exact old there
      · rw [updated.node_self]
        exact supplies
  | link asked there length updated | edit call there length asks updated =>
      exact old (((updated.hasNode r).mp hr).elim id (· ▸ there))

theorem Sound.after_supplied (h : f.Sound) (supplied : f.Supplied)
    (there : ∀ r ∈ a.nodes, f.hasNode r) : (f.after a).Supplied := by
  have steps := h.after_steps a there
  intro r hr
  exact ((h.after_does a there).supplies supplied
    (fun r hr => steps.constant Node.constant_source hr) hr).mono steps

/-- **After every run the nodes that take their rows from a query have its entity.** -/
theorem Sound.run_supplied (h : f.Sound) (supplied : f.Supplied) {actions : List Action}
    (admitted : f.admits actions) : (f.run actions).Supplied := by
  induction actions generalizing f with
  | nil => exact supplied
  | cons a rest ih =>
      obtain ⟨there, admitted⟩ := admits_cons.mp admitted
      exact ih ((h.after_steps a there).sound h) (h.after_supplied supplied there) admitted

/-! ## Columns of joined queries -/

section Columns

variable {t u : Tree} {v : NodeId} {q : NodeRef} {e : Entity} {property : String} {c : ColumnRef}
  {actions : List Action} {s : Select}

/-- The query that a node takes its rows from is there, and has the entity of the node. -/
theorem Supplied.query (supplied : f.Supplied) {i : TreeId} (ht : f.tree? i = some t)
    (small : v < t.nodes.length) (source : (t.node v).source = .query q e) :
    f.hasNode q ∧ (f.node q).entity = (t.node v).entity := by
  have same : f.node ⟨i, v⟩ = t.node v := node_eq ht
  have own : (t.node v).entity = e := by rw [Node.entity, source]; rfl
  rw [own]
  exact supplied ⟨i, v⟩ (hasNode_iff.mpr ⟨t, ht, small⟩) q e (same ▸ source)

/-- A property has the same column in a query and where the query is joined, when both trees have the same
mappings. -/
theorem Supplied.column_eq (supplied : f.Supplied) {i : TreeId} (ht : f.tree? i = some t)
    (small : v < t.nodes.length) (source : (t.node v).source = .query q e)
    (hu : f.tree? q.tree = some u) (mappings : t.mappings = u.mappings) :
    t.column v = u.column q.node := by
  obtain ⟨-, entity⟩ := supplied.query ht small source
  rw [node_eq hu] at entity
  show t.resolve (t.node v).entity = u.resolve (u.node q.node).entity
  rw [entity, Tree.resolve_congr mappings]

/-- **A query that is joined stands among the tables under the alias of the join. A property that it selects
without an alias is among its columns, under its own name or that of its column, as the query says. Wherever
a call names this property for the join, the column behind the alias is the one that the mapping has for the
property. With the same mapping for both, it is found in the query just when properties do not name the
results of the query or the property has the name of its column.** -/
theorem derived_references (admitted : empty.admits actions) (run : empty.run actions = f)
    (ht : f.tree? r.tree = some t) (small : r.node < t.nodes.length) (made : f.select r = .ok s)
    (hv : v ∈ t.walk r.node) (source : (t.node v).source = .query q e)
    (hu : f.tree? q.tree = some u)
    (plain : u.SelectsPlainly q.node (changesIn actions q.tree q.node) property c) :
    ∃ s' item, f.select q = .ok s' ∧ ⟨.select s', some (t.aliasOf v)⟩ ∈ s.tables ∧
      item ∈ s'.columns ∧ item.IsColumnOf (u.aliasOf q.node) c.column ∧
      item.outputName? = some (c.resultName (u.node q.node).result.propertyAsAlias) ∧
      List.Forall₂ (fun m written => m = ⟨v, .own, .property property⟩ →
          ∃ c', t.column v (.property property) = .ok c' ∧
            written = (some (t.aliasOf v), c'.column) ∧
            (t.mappings = u.mappings → (some written.2 = item.outputName? ↔
              (u.node q.node).result.propertyAsAlias = false ∨ property = c.column)))
        (t.mentions r.node (changesIn actions r.tree)) s.references := by
  have sound : f.Sound := Reachable.sound ⟨actions, admitted, run⟩
  have supplied : f.Supplied := run ▸ sound_empty.run_supplied supplied_empty admitted
  have soundTree := sound.tree r.tree t ht
  have hv' : v < t.nodes.length := soundTree.walk_lt small hv
  rw [sound.select_eq ht] at made
  -- The query stands among the tables under the alias of the node, with the property among its columns.
  obtain ⟨table, written, mem⟩ := soundTree.table_of_node small made hv
  rw [Node.tableSource, source] at written
  obtain ⟨s', inner, same⟩ := Outcome.bind_ok written
  obtain rfl := Except.ok.inj same
  have innerInTree := inner
  rw [sound.select_eq hu] at innerInTree
  have there : f.hasNode q := (supplied.query ht hv' source).1
  have item := (sound.tree q.tree u hu).select_plain (lt_of_hasNode hu there)
    (fun w hw => told_run Node.collects_faithful admitted (run ▸ hu) hw) innerInTree plain
  have name := u.outputName?_plainExpr q.node c
  refine ⟨s', u.plainExpr q.node c, inner, mem, item, u.plainExpr_isColumnOf q.node c, name, ?_⟩
  have stands := soundTree.select_stands small
    (fun w hw => run ▸ told_run Node.lists_faithful admitted (run ▸ ht) hw)
    (fun w hw => told_run Node.collects_faithful admitted (run ▸ ht) hw) made
  refine stands.imp fun m written stands own => ?_
  obtain ⟨c', found, rfl⟩ := (own ▸ stands).own_column
  refine ⟨c', found, rfl, fun mappings => ?_⟩
  rw [supplied.column_eq ht hv' source hu mappings, plain.found] at found
  obtain rfl := Except.ok.inj found
  rw [name, Option.some.injEq, eq_comm]
  exact ColumnRef.resultName_eq_column_iff (Tree.property_of_column plain.found)

end Columns

/-- Customers with their orders, which are a query whose results are named by properties. -/
def ordersOf : List Action :=
  [.call (.root shop ⟨"customer", "Customer", "customer"⟩ (some "c") {}),
    .call (.change ⟨0, 0⟩ (.select (.property "id") none)),
    .call (.subQuery ⟨0, 0⟩ ⟨"order", "Order", "order"⟩ (some "i")),
    .call (.change ⟨1, 0⟩ (.propertyAsAlias true)),
    .call (.change ⟨1, 0⟩ (.select (.property "id") none)),
    .call (.change ⟨1, 0⟩ (.select (.property "customerId") none)),
    .call (.joinQuery ⟨0, 0⟩ ⟨1, 0⟩ .inner (some "d")),
    .call (.change ⟨0, 1⟩ (.onWith (.property "id") (.property "customerId"))),
    .call (.attach ⟨0, 1⟩),
    .call (.change ⟨0, 1⟩ (.isNull (.property "id") true))]

/-- The filter on the identifiers of the orders finds them in the query. -/
theorem derived_references_ordersOf : ∃ s s', (empty.run ordersOf).select ⟨0, 0⟩ = .ok s ∧
    (empty.run ordersOf).select ⟨1, 0⟩ = .ok s' ∧ ⟨.select s', some "d"⟩ ∈ s.tables ∧
    (some "d", "id") ∈ s.references ∧ ∃ item ∈ s'.columns, item.outputName? = some "id" := by
  obtain ⟨s, made⟩ : ∃ s, (empty.run ordersOf).select ⟨0, 0⟩ = .ok s := ⟨_, rfl⟩
  let t := ((empty.run ordersOf).tree? 0).get (by decide)
  let u := ((empty.run ordersOf).tree? 1).get (by decide)
  have plain : u.SelectsPlainly 0 (changesIn ordersOf 1 0) "id" ⟨"id", some "id"⟩ :=
    ⟨.tail _ (.head _), rfl, by decide⟩
  obtain ⟨s', item, inner, table, mem, -, -, paired⟩ := @derived_references _ ⟨0, 0⟩ t u 1 ⟨1, 0⟩
    ⟨"order", "Order", "order"⟩ "id" ⟨"id", some "id"⟩ ordersOf s (by decide) rfl rfl (by decide) made
    (by decide) rfl rfl plain
  let filtered : Mention := ⟨1, .own, .property "id"⟩
  have named : filtered ∈ t.mentions 0 (changesIn ordersOf 0) := by decide
  obtain ⟨written, cited, told⟩ := Outcome.forall₂_mem_left paired named
  obtain ⟨c', found, rfl, agree⟩ := told rfl
  obtain rfl : ⟨"id", some "id"⟩ = c' := Except.ok.inj found
  exact ⟨s, s', made, inner, table, cited, item, mem, ((agree rfl).mpr (Or.inr rfl)).symm⟩

/-- The condition of the join names a column that the query does not have. -/
theorem not_derived_ordersOf : empty.admits ordersOf ∧ ∃ s s',
    (empty.run ordersOf).select ⟨0, 0⟩ = .ok s ∧ (empty.run ordersOf).select ⟨1, 0⟩ = .ok s' ∧
    ⟨.select s', some "d"⟩ ∈ s.tables ∧ (some "d", "customer_id") ∈ s.references ∧
    s'.columns.map Sql.Expr.outputName? = [some "id", some "customerId"] := by
  refine ⟨by decide, _, _, rfl, rfl, List.mem_cons_of_mem _ List.mem_cons_self, ?_, rfl⟩
  decide

end Forest

end QueryForest
