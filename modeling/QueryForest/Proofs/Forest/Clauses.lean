import QueryForest.Proofs.Forest.Projection
import QueryForest.Proofs.Tree.Clauses

set_option autoImplicit false

/-!
# The clauses of statements

The clauses of the query of a node are told by the calls that were made on the nodes of its walk, before
or after these were attached and branched. Nothing is lost, doubled or put into another place
(`clauses_run`).
-/

namespace QueryForest.Forest

open Sql (Expr Select)

variable {r : NodeRef} {actions : List Action} {s : Select}

/-- **After every run the clauses of the query of a node consist of what the calls on the nodes of its walk
have contributed, in the order of the walk and then of the calls. Filters contribute a predicate, whether
their node is fetched or not, and conditions of a join an equation, under the alias of the parent that the
join is attached to on the left and its own on the right. Groups, conditions on aggregates and sort keys
are those of the root and the fetched joins, as often as they were asked for. A clause of predicates is
missing just when there was no call for it.** -/
theorem clauses_run (admitted : empty.admits actions) (hr : (empty.run actions).hasNode r)
    (made : (empty.run actions).select r = .ok s) : ∃ t, (empty.run actions).tree? r.tree = some t ∧
      t.Clauses (empty.run actions) r.node (changesIn actions r.tree) s := by
  have sound : (empty.run actions).Sound := Reachable.sound ⟨actions, admitted, rfl⟩
  obtain ⟨t, ht, small⟩ := hasNode_iff.mp hr
  have lists : ∀ v < t.nodes.length, (t.node v).Lists (t.surroundings (empty.run actions) v)
      (changesIn actions r.tree v) :=
    fun v hv => told_run Node.lists_faithful admitted ht hv
  rw [sound.select_eq ht] at made
  exact ⟨t, ht, (sound.tree r.tree t ht).select_clauses small lists made⟩

/-- The second join is created from the root, attached to the first one before that is attached itself, and
given one more condition afterwards. It is not fetched. Groups and filters are asked for twice, and in
no order of the nodes. -/
def interleaved : List Action :=
  [.call (.root orders ⟨"order", "Order", "orders"⟩ (some "o") {}),
    .call (.join ⟨0, 0⟩ ⟨"customer", "Customer", "customers"⟩ .left (some "c")),
    .call (.join ⟨0, 0⟩ ⟨"address", "Address", "addresses"⟩ .inner (some "a")),
    .call (.change ⟨0, 2⟩ (.compare (.column "city") .eq (.string "Bern"))),
    .call (.change ⟨0, 2⟩ (.onWith (.property "number") (.column "order_id"))),
    .call (.change ⟨0, 2⟩ (.group (.column "city"))),
    .call (.attachTo ⟨0, 2⟩ ⟨0, 1⟩),
    .call (.change ⟨0, 1⟩ (.onWith (.column "customer_id") (.column "id"))),
    .call (.attach ⟨0, 1⟩),
    .call (.change ⟨0, 2⟩ (.onWith (.column "zip") (.column "zip"))),
    .call (.change ⟨0, 1⟩ (.fetch true)),
    .call (.change ⟨0, 1⟩ (.select (.column "name") none)),
    .call (.change ⟨0, 1⟩ (.isNull (.column "name") true)),
    .call (.change ⟨0, 1⟩ (.group (.column "name"))),
    .call (.change ⟨0, 0⟩ (.groupAll [.property "number", .property "number"])),
    .call (.change ⟨0, 0⟩ (.inList (.property "number") [] false)),
    .call (.change ⟨0, 0⟩ (.inList (.property "number") [] false))]

set_option maxRecDepth 2000 in
theorem clauses_run_interleaved : ∃ s t, (empty.run interleaved).select ⟨0, 0⟩ = .ok s ∧
    (empty.run interleaved).tree? 0 = some t ∧
    t.Clauses (empty.run interleaved) 0 (changesIn interleaved 0) s ∧
    Sql.conjuncts s.condition = [.literal "1 = 0", .literal "1 = 0", .isNull (.column "c" "name") true,
      .binary (.column "a" "city") .eq (.value (.string "Bern"))] ∧
    s.joins.map (·.on.conjuncts) = [[.binary (.column "o" "customer_id") .eq (.column "c" "id")],
      [.binary (.column "c" "id") .eq (.column "a" "order_id"),
        .binary (.column "c" "zip") .eq (.column "a" "zip")]] ∧
    s.groups = [.column "o" "id", .column "o" "id", .column "c" "name"] ∧ s.having = none := by
  obtain ⟨s, made⟩ : ∃ s, (empty.run interleaved).select ⟨0, 0⟩ = .ok s := ⟨_, rfl⟩
  obtain ⟨t, ht, clauses⟩ := clauses_run (by decide) (by decide) made
  refine ⟨s, t, made, ht, clauses, ?_⟩
  obtain rfl := Except.ok.inj made
  exact ⟨rfl, rfl, rfl, rfl⟩

end QueryForest.Forest
