import QueryForest.Proofs.Forest.Journal
import QueryForest.Proofs.Forest.Readable
import QueryForest.Proofs.Forest.Rendering

set_option autoImplicit false

/-!
# Where the parameters of a statement come from

The parameters of a statement are the values that calls have bound on the nodes of its walk, each of
them once (`params_run`). They are in the order of the clauses and not of the calls: first those of
the queries that stand in the place of a table, then those of the filters, then those of the conditions
on aggregates, and at last the limit and the offset. Inside of each clause they are in the order of the
walk, and on one node in the order of the calls.
-/

namespace QueryForest.Forest

open Sql

variable {f : Forest} {d : Dialect} {r : NodeRef}

/-- The parameters of the statement of a node, if it has one. -/
def paramsOf (f : Forest) (d : Dialect) (r : NodeRef) : List Value :=
  match f.render d r with
  | .ok statement => statement.params
  | .error _ => []

/-- The parameters of a statement are the values of its query. -/
theorem paramsOf_eq {s : Select} (selected : f.select r = .ok s) (d : Dialect) :
    f.paramsOf d r = s.values := by
  obtain ⟨statement, made⟩ := (exists_render (d := d)).mpr ⟨s, selected⟩
  obtain ⟨s', selected', -, params⟩ := render_ok made
  obtain rfl := Except.ok.inj (selected.symm.trans selected')
  have given : f.paramsOf d r = statement.params := by rw [paramsOf, made]
  rw [given, params, writeAll_eq]
  show [] ++ valuesOf (s.pieces d) = _
  rw [List.nil_append, Select.pieces_eq, valuesOf_tokens]
  rfl

/-- A query in the place of a table or in a filter is one that the node nests. -/
theorem mem_queries_of_slot {n : Node} {q : NodeRef}
    (h : n.source.query? = some q ∨ Slot.query q ∈ n.filters.flatMap Filter.slots) :
    q ∈ n.queries := by
  refine Node.mem_queries.mpr (h.imp_right fun bound => ?_)
  obtain ⟨p, hp, slot⟩ := List.mem_flatMap.mp bound
  refine ⟨p, hp, ?_⟩
  cases p with
  | inQuery c query negated => simp_all [Filter.slots, Filter.query?]
  | existsQuery query negated => simp_all [Filter.slots, Filter.query?]
  | compare | inList | isNull | outer => simp [Filter.slots] at slot

/-- What the journal of a run has for the nodes of a tree. -/
theorem records_run {actions : List Action} (admitted : empty.admits actions) {i : TreeId} {t : Tree}
    (ht : (empty.run actions).tree? i = some t) (v : NodeId) :
    (t.node v).Records ((journalOf actions).bindings ⟨i, v⟩) := by
  have told := (journaled_empty.run sound_empty admitted).records ⟨i, v⟩
  rwa [node_eq (r := ⟨i, v⟩) ht] at told

/-- **The parameters of a statement are the values that calls have bound on the nodes of its walk,
clause by clause and each of them once.** What a query in the place of a table or in a filter binds are
the parameters of the statement that it has itself. -/
theorem params_run {actions : List Action} (admitted : empty.admits actions)
    (hr : (empty.run actions).hasNode r) {statement : Statement}
    (made : (empty.run actions).render d r = .ok statement) : ∃ t,
    (empty.run actions).tree? r.tree = some t ∧ (t.walk r.node).Nodup ∧
    (∀ v ∈ t.walk r.node, ∀ q, ((journalOf actions).rows ⟨r.tree, v⟩ = some q ∨
        .query q ∈ (journalOf actions).filters ⟨r.tree, v⟩) →
      (empty.run actions).hasNode q ∧ ∃ nested, (empty.run actions).render d q = .ok nested) ∧
    statement.params = Tree.inOrder ((empty.run actions).paramsOf d) (t.walk r.node)
      (fun v => (journalOf actions).rows ⟨r.tree, v⟩)
      (fun v => (journalOf actions).filters ⟨r.tree, v⟩)
      (fun v => v = r.node || (journalOf actions).fetched ⟨r.tree, v⟩)
      (fun v => (journalOf actions).having ⟨r.tree, v⟩)
      ((journalOf actions).limit r) ((journalOf actions).offset r) := by
  have sound : (empty.run actions).Sound := Reachable.sound ⟨actions, admitted, rfl⟩
  obtain ⟨t, ht, small⟩ := hasNode_iff.mp hr
  have tree := sound.tree r.tree t ht
  obtain ⟨s, selected, -, -⟩ := render_ok made
  have fromTree : t.select (empty.run actions).select r.node = .ok s := by
    rw [← sound.select_eq ht, selected]
  have records := records_run admitted ht
  refine ⟨t, ht, Tree.Linked.nodup_walk r.node, ?_, ?_⟩
  · intro v hv q bound
    rw [Journal.rows, Journal.filters, ← (records v).rows, ← (records v).filters] at bound
    have nests := mem_queries_of_slot bound
    refine ⟨sound.hasNode_queries ht (Tree.mem_queries_of_node nests), exists_render.mpr ?_⟩
    exact ((tree.exists_select small).mp ⟨s, fromTree⟩).2.2.2 v hv q nests
  · have given : statement.params = s.values := by
      rw [← paramsOf_eq selected d, paramsOf, made]
    rw [given, tree.select_values small (fun q inner found => paramsOf_eq found d) fromTree]
    -- The nodes bind what the journal has for them.
    unfold Journal.rows Journal.filters Journal.fetched Journal.having Journal.limit Journal.offset
    simp only [(records _).rows, (records _).filters, (records _).fetch, (records _).having,
      (records _).limit, (records _).offset]

/-- Orders with the first of their cheap items. A branch of the query has a filter, a limit and an
offset of its own; the comparison that fails is not counted, and the join is not fetched. -/
def paged : List Action :=
  [.call (.root {} ⟨"order", "Order", "orders"⟩ (some "o") {}),
    .call (.change ⟨0, 0⟩ (.select (.column "customer_id") none)),
    .call (.change ⟨0, 0⟩ (.having .sum (some (.column "total")) .gt (.int 100))),
    .call (.change ⟨0, 0⟩ (.limit 20)),
    .call (.subQuery ⟨0, 0⟩ ⟨"item", "Item", "items"⟩ (some "i")),
    .call (.change ⟨1, 0⟩ (.select (.column "order_id") none)),
    .call (.change ⟨1, 0⟩ (.compare (.column "price") .lt (.int 10))),
    .call (.change ⟨1, 0⟩ (.limit 5)),
    .call (.joinQuery ⟨0, 0⟩ ⟨1, 0⟩ .inner (some "c")),
    .call (.change ⟨0, 1⟩ (.onWith (.column "id") (.column "order_id"))),
    .call (.change ⟨0, 1⟩ (.having .count none .gt (.int 2))),
    .call (.change ⟨0, 1⟩ (.inList (.column "order_id") [.int 1, .int 2] true)),
    .call (.attach ⟨0, 1⟩),
    .call (.branch ⟨0, 0⟩),
    .call (.change ⟨0, 2⟩ (.compare (.property "missing") .eq (.int 9))),
    .call (.change ⟨0, 2⟩ (.isNull (.column "paid") false)),
    .call (.change ⟨0, 2⟩ (.compare (.column "total") .gt (.int 7))),
    .call (.change ⟨0, 2⟩ (.limit 30)),
    .call (.change ⟨0, 2⟩ (.offset 40))]

set_option maxRecDepth 4000 in
theorem params_run_paged : ∃ statement t,
    (empty.run paged).render .mysql ⟨0, 2⟩ = .ok statement ∧
      (empty.run paged).tree? 0 = some t ∧ t.walk 2 = [2, 1] ∧
      (journalOf paged).rows ⟨0, 1⟩ = some ⟨1, 0⟩ ∧
      (empty.run paged).paramsOf .mysql ⟨1, 0⟩ = [.int 10, .uint 5] ∧
      (journalOf paged).having ⟨0, 1⟩ = [.int 2] ∧ (journalOf paged).fetched ⟨0, 1⟩ = false ∧
      statement.params = [.int 10, .uint 5, .int 7, .int 1, .int 2, .int 100, .uint 30, .uint 40] := by
  obtain ⟨statement, made⟩ : ∃ statement,
      (empty.run paged).render .mysql ⟨0, 2⟩ = .ok statement := ⟨_, rfl⟩
  obtain ⟨t, ht, -, -, params⟩ := params_run (r := ⟨0, 2⟩) rfl rfl made
  have walk : t.walk 2 = [2, 1] := by
    obtain rfl := Option.some.inj ht
    decide
  refine ⟨statement, t, made, ht, walk, rfl, rfl, rfl, rfl, ?_⟩
  rw [params, walk]
  rfl

end QueryForest.Forest
