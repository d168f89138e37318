import QueryForest.Proofs.Forest.Rendering
import QueryForest.Proofs.Forest.Scope
import QueryForest.Proofs.Tree.Columns

set_option autoImplicit false

/-!
# The columns of statements

The columns of the query of a node, and of every query in it, are told by the calls that were made on
the nodes of their walks, in whatever order and by whatever names (`projected_run`).
-/

namespace QueryForest.Forest

open Sql (Expr Select)

variable {f : Forest} {r : NodeRef}

/-- The changes that a run has made on the nodes of a tree. -/
def changesIn (actions : List Action) (i : TreeId) (v : NodeId) : List Change :=
  chronicleOf actions ⟨i, v⟩

/-- **After every run the columns of the query of a node, and of every query in it, are what was asked
for on the root and the fetched joins of its walk: in the order in which it was asked for at first, a
column once for each target and alias, and every aggregate. No column that was excluded at its node is
among them, be it excluded before or after, by its property or by its name, and no wildcard stands for
a node with exclusions. When no column is left, there is no query but an error that says so.** -/
theorem projected_run {actions : List Action} (admitted : empty.admits actions)
    (hr : (empty.run actions).hasNode r) :
    (∀ s, (empty.run actions).select r = .ok s →
      (∃ t, (empty.run actions).tree? r.tree = some t ∧
        t.Projected r.node (changesIn actions r.tree) s.columns) ∧
      ∀ inner, inner.Within s → ∃ q t, (empty.run actions).select q = .ok inner ∧
        (empty.run actions).tree? q.tree = some t ∧ q.node < t.nodes.length ∧
        t.Projected q.node (changesIn actions q.tree) inner.columns) ∧
    ∀ t, (empty.run actions).tree? r.tree = some t → t.Complete →
      (∀ v ∈ t.walk r.node, Tree.Shows (t.node v) (v = r.node) → t.Known (t.node v) (v = r.node)) →
      (∀ v ∈ t.walk r.node, ∀ q ∈ (t.node v).queries, ∃ s, (empty.run actions).select q = .ok s) →
      t.results r.node (changesIn actions r.tree) = [] →
      (empty.run actions).select r = .error (.emptyProjection (t.aliasOf r.node)) := by
  have sound : (empty.run actions).Sound := Reachable.sound ⟨actions, admitted, rfl⟩
  have collects {i : TreeId} {t : Tree} (ht : (empty.run actions).tree? i = some t) :
      ∀ v < t.nodes.length, (t.node v).Collects (t.column v) (changesIn actions i v) :=
    fun v hv => told_run Node.collects_faithful admitted ht hv
  have projected {q : NodeRef} {s : Select} (hq : (empty.run actions).hasNode q)
      (made : (empty.run actions).select q = .ok s) : ∃ t,
        (empty.run actions).tree? q.tree = some t ∧ q.node < t.nodes.length ∧
          t.Projected q.node (changesIn actions q.tree) s.columns := by
    obtain ⟨t, ht, small⟩ := hasNode_iff.mp hq
    rw [sound.select_eq ht] at made
    exact ⟨t, ht, small, (sound.tree q.tree t ht).select_projected small (collects ht) made⟩
  constructor
  · intro s made
    constructor
    · obtain ⟨t, ht, -, told⟩ := projected hr made
      exact ⟨t, ht, told⟩
    · intro inner within
      obtain ⟨q, hq, madeInner⟩ := sound.select_within hr made within
      obtain ⟨t, ht, small, told⟩ := projected hq madeInner
      exact ⟨q, t, madeInner, ht, small, told⟩
  · intro t ht complete known nested none
    have small := lt_of_hasNode ht hr
    rw [sound.select_eq ht]
    refine (sound.tree r.tree t ht).select_empty small complete (collects ht) (fun v hv => ?_) none
    exact Tree.exists_part.mpr
      ⟨fun shows => Tree.exists_projection.mpr (known v hv shows), nested v hv⟩

/-- The mapping of orders. -/
def orders : Registry :=
  ⟨[("order", ⟨"Order", "orders", [⟨"number", "id", .long⟩, ⟨"amount", "total", .decimal⟩]⟩)]⟩

/-- A property is selected and its column is excluded later on. A column is selected twice, and once
more under an alias. The joined query is fetched, but something is excluded from it. Of the last query
everything is excluded. -/
def narrowed : List Action :=
  [.call (.root orders ⟨"order", "Order", "orders"⟩ (some "o") {}),
    .call (.change ⟨0, 0⟩ (.selectAll [.property "amount", .column "id", .column "id"])),
    .call (.change ⟨0, 0⟩ (.select (.column "id") (some "x"))),
    .call (.change ⟨0, 0⟩ (.exclude (.column "total"))),
    .call (.change ⟨0, 0⟩ (.aggregate .sum (some (.property "amount")) {})),
    .call (.subQuery ⟨0, 0⟩ ⟨"item", "Item", "items"⟩ (some "i")),
    .call (.change ⟨1, 0⟩ (.select (.column "order_id") none)),
    .call (.joinQuery ⟨0, 0⟩ ⟨1, 0⟩ .inner (some "j")),
    .call (.change ⟨0, 1⟩ (.onWith (.column "id") (.column "order_id"))),
    .call (.change ⟨0, 1⟩ (.fetch true)),
    .call (.change ⟨0, 1⟩ (.exclude (.column "price"))),
    .call (.attach ⟨0, 1⟩),
    .call (.root orders ⟨"order", "Order", "orders"⟩ (some "k") {}),
    .call (.change ⟨2, 0⟩ (.excludeAll [.property "amount", .column "id"]))]

theorem projected_run_narrowed : (∃ s t, (empty.run narrowed).select ⟨0, 0⟩ = .ok s ∧
      (empty.run narrowed).tree? 0 = some t ∧ t.Projected 0 (changesIn narrowed 0) s.columns ∧
      s.columns = [.column "o" "id", .aliased (.column "o" "id") "x",
        .call "SUM" [.column "o" "total"] false false]) ∧
    (empty.run narrowed).select ⟨2, 0⟩ = .error (.emptyProjection "k") := by
  obtain ⟨told, -⟩ := @projected_run ⟨0, 0⟩ narrowed (by decide) (by decide)
  obtain ⟨-, bare⟩ := @projected_run ⟨2, 0⟩ narrowed (by decide) (by decide)
  constructor
  · obtain ⟨s, made⟩ : ∃ s, (empty.run narrowed).select ⟨0, 0⟩ = .ok s := ⟨_, rfl⟩
    obtain ⟨⟨t, ht, projected⟩, -⟩ := told s made
    refine ⟨s, t, made, ht, projected, ?_⟩
    obtain rfl := Option.some.inj ht
    rw [projected.columns_eq]
    rfl
  · let t := ((empty.run narrowed).tree? 2).get (by decide)
    have walk : t.walk 0 = [0] := by decide
    refine bare t rfl (Tree.incompleteJoin?_eq_none_iff.mp rfl) ?_ ?_ rfl
    · intro v hv _ _ e source
      obtain rfl : v = 0 := List.mem_singleton.mp (walk ▸ hv)
      obtain rfl := NodeSource.entity.inj source
      decide
    · intro v hv q hq
      obtain rfl : v = 0 := List.mem_singleton.mp (walk ▸ hv)
      exact absurd hq List.not_mem_nil

end QueryForest.Forest
