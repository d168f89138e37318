import QueryForest.Proofs.Forest.Parents
import QueryForest.Proofs.Forest.Projection
import QueryForest.Proofs.Tree.Mentions

set_option autoImplicit false

/-!
# Columns that stay with their entities

A column that is named for an entity is told by the mapping of this entity, and in the statement it stands
behind the alias of a node of this entity (`Loyal`). There are two exceptions (`Estranged`), since it is
only in the statement that the alias is put before the column: the left side of the condition of a join
that the caller attaches below a node of another entity than the one that it was created from, and a column
of an entity around a query that was begun from a node of another entity. These columns stand behind the
alias of the parent and of the node around the query nevertheless (`references_run`).
-/

namespace QueryForest

open Sql (Expr Select Reference)

namespace Tree

/-- The entity that a mention is meant for. The left side of a condition on one name takes this name from
the right. -/
def meant? (t : Tree) (m : Mention) : Option Entity :=
  match m.role with
  | .own => some (t.node m.node).entity
  | .left => (t.node m.node).join.map fun edge => (t.node edge.reference).entity
  | .shared => none
  | .outer entity => some entity

end Tree

namespace Forest

/-- Whether a column is the one of the entity that its mention is meant for, behind the alias of a node of
this entity. -/
def Loyal (f : Forest) (t : Tree) (m : Mention) (written : Reference) : Prop :=
  ∀ entity, t.meant? m = some entity → ∃ r c, f.hasNode r ∧ (f.node r).entity = entity ∧
    t.resolve entity m.target = .ok c ∧ written = (some (f.node r).aliasName, c.column)

/-- Whether a mention in a tree is meant for another entity than that of the node that it comes to stand
behind. -/
inductive Estranged (f : Forest) (actions : List Action) (i : TreeId) (t : Tree) : Mention → Prop
  | left {v parent : NodeId} {edge : JoinEdge} {target : Target}
      (join : (t.node v).join = some edge) (attached : edge.parent = some parent)
      (named : .call (.attachTo ⟨i, v⟩ ⟨i, parent⟩) ∈ actions)
      (other : (t.node parent).entity ≠ (t.node edge.reference).entity) :
      Estranged f actions i t ⟨v, .left, target⟩
  | outer {v : NodeId} {o : NodeRef} {entity : Entity} {target : Target}
      (around : (t.node v).outer = some o) (other : (f.node o).entity ≠ entity) :
      Estranged f actions i t ⟨v, .outer entity, target⟩

variable {actions : List Action} {i : TreeId} {t : Tree} {r : NodeRef} {m : Mention} {c : Reference}

/-- A column is loyal where it stands behind a node of the entity that it is meant for. -/
theorem loyal_or_estranged (admitted : empty.admits actions)
    (ht : (empty.run actions).tree? i = some t) (small : m.node < t.nodes.length)
    (stands : t.Stands (empty.run actions) m c) :
    (empty.run actions).Loyal t m c ∨ Estranged (empty.run actions) actions i t m := by
  have reachable : (empty.run actions).Reachable := ⟨actions, admitted, rfl⟩
  have linked := (reachable.sound.tree i t ht).linked
  have there {v : NodeId} (hv : v < t.nodes.length) : (empty.run actions).hasNode ⟨i, v⟩ :=
    hasNode_iff.mpr ⟨t, ht, hv⟩
  have same (v : NodeId) : (empty.run actions).node ⟨i, v⟩ = t.node v := node_eq ht
  cases stands with
  | @own v target column found =>
      refine Or.inl fun entity meant => ?_
      obtain rfl := Option.some.inj meant
      exact ⟨⟨i, v⟩, column, there small, congrArg Node.entity (same v), found, by rw [same]; rfl⟩
  | @left v parent edge target column join attached found =>
      by_cases entities : (t.node parent).entity = (t.node edge.reference).entity
      · refine Or.inl fun entity meant => ?_
        obtain ⟨edge', again, rfl⟩ := Option.map_eq_some_iff.mp meant
        obtain rfl := Option.some.inj (join.symm.trans again)
        have above : t.parent? v = some parent := Option.bind_eq_some_iff.mpr ⟨edge, join, attached⟩
        refine ⟨⟨i, parent⟩, column, there (linked.parent_lt v parent above), ?_, found, ?_⟩
        · rw [same, entities]
        · rw [same]
          rfl
      · -- The node that the join was created from has its own entity.
        rcases parent_reference admitted ht join attached with own | named
        · exact absurd (congrArg (fun w => (t.node w).entity) own) entities
        · exact Or.inr (.left join attached named entities)
  | shared => exact Or.inl fun entity meant => absurd meant nofun
  | @outer v o entity target column around found =>
      by_cases entities : ((empty.run actions).node o).entity = entity
      · refine Or.inl fun entity' meant => ?_
        obtain rfl := Option.some.inj meant
        have enclosing := reachable.enclosed ⟨i, v⟩ o (same v ▸ around)
        exact ⟨o, column, enclosing, entities, found, rfl⟩
      · exact Or.inr (.outer around entities)

/-- What is told of the columns of the query of a node after a run: they are those that the calls have
named, one for one, and loyal to their entities unless they are estranged. -/
def Cites (actions : List Action) (t : Tree) (r : NodeRef) (s : Select) : Prop :=
  List.Forall₂ (fun m c => t.Stands (empty.run actions) m c ∧
      ((empty.run actions).Loyal t m c ∨ Estranged (empty.run actions) actions r.tree t m))
    (t.mentions r.node (changesIn actions r.tree)) s.references

/-- **After every run the columns of the query of a node, and of every query in it, are those that the calls
on the nodes of its walk have named, one for one, as the mappings of the entities tell that they were named
for. A column stands behind the alias of a node of its entity, unless it is the left side of the condition
of a join that the caller has attached below a node of another entity, or a column of an entity around a
query that was begun from a node of another one. Then it stands behind the alias of the node that the join
is attached to, or that the query was begun from.** -/
theorem references_run (admitted : empty.admits actions) (hr : (empty.run actions).hasNode r)
    {s : Select} (made : (empty.run actions).select r = .ok s) :
    (∃ t, (empty.run actions).tree? r.tree = some t ∧ Cites actions t r s) ∧
      ∀ inner, inner.Within s → ∃ q t, (empty.run actions).select q = .ok inner ∧
        (empty.run actions).tree? q.tree = some t ∧ q.node < t.nodes.length ∧
        Cites actions t q inner := by
  have sound : (empty.run actions).Sound := Reachable.sound ⟨actions, admitted, rfl⟩
  have cites {q : NodeRef} {s : Select} (hq : (empty.run actions).hasNode q)
      (made : (empty.run actions).select q = .ok s) : ∃ t,
        (empty.run actions).tree? q.tree = some t ∧ q.node < t.nodes.length ∧ Cites actions t q s := by
    obtain ⟨t, ht, small⟩ := hasNode_iff.mp hq
    have soundTree := sound.tree q.tree t ht
    rw [sound.select_eq ht] at made
    have stands := soundTree.select_stands small
      (fun v hv => told_run Node.lists_faithful admitted ht hv)
      (fun v hv => told_run Node.collects_faithful admitted ht hv) made
    have walked : ∀ m ∈ t.mentions q.node (changesIn actions q.tree), m.node < t.nodes.length :=
      fun m hm => soundTree.walk_lt small (Tree.node_mem_walk hm)
    refine ⟨t, ht, small, ((List.forall₂_and_left _ _).mpr ⟨walked, stands⟩).imp ?_⟩
    exact fun m c told => ⟨told.2, loyal_or_estranged admitted ht told.1 told.2⟩
  constructor
  · obtain ⟨t, ht, -, told⟩ := cites hr made
    exact ⟨t, ht, told⟩
  · intro inner within
    obtain ⟨q, hq, madeInner⟩ := sound.select_within hr made within
    obtain ⟨t, ht, small, told⟩ := cites hq madeInner
    exact ⟨q, t, madeInner, ht, small, told⟩

/-- The mappings of orders and customers. -/
def shop : Registry :=
  ⟨[("order", ⟨"Order", "order", [⟨"id", "id", .long⟩, ⟨"customerId", "customer_id", .long⟩]⟩),
    ("customer", ⟨"Customer", "customer", [⟨"id", "id", .long⟩, ⟨"name", "name", .varChar⟩]⟩)]⟩

/-- Both joins are created from the order and given the same condition, but the second one is attached to
the first. The query in the filter is begun from the first join and correlated with the order. -/
def astray : List Action :=
  [.call (.root shop ⟨"order", "Order", "order"⟩ (some "o") {}),
    .hold "orders" ⟨0, 0⟩,
    .call (.change ⟨0, 0⟩ (.select (.property "id") none)),
    .call (.join ⟨0, 0⟩ ⟨"customer", "Customer", "customer"⟩ .inner (some "c")),
    .call (.change ⟨0, 1⟩ (.onWith (.property "customerId") (.property "id"))),
    .call (.attach ⟨0, 1⟩),
    .call (.join ⟨0, 0⟩ ⟨"customer", "Customer", "customer"⟩ .left (some "d")),
    .call (.change ⟨0, 2⟩ (.onWith (.property "customerId") (.property "id"))),
    .call (.attachTo ⟨0, 2⟩ ⟨0, 1⟩),
    .call (.subQuery ⟨0, 1⟩ ⟨"customer", "Customer", "customer"⟩ (some "i")),
    .call (.change ⟨1, 0⟩ (.select (.property "name") none)),
    .call (.change ⟨1, 0⟩ (.correlate (.property "id") .eq ⟨"order", "Order", "order"⟩
      (.property "customerId"))),
    .call (.change ⟨0, 0⟩ (.existsQuery ⟨1, 0⟩ false))]

set_option maxRecDepth 2000 in
theorem references_run_astray : ∃ s t, (empty.run astray).select ⟨0, 0⟩ = .ok s ∧
    (empty.run astray).tree? 0 = some t ∧ Cites astray t ⟨0, 0⟩ s ∧
    t.mentions 0 (changesIn astray 0) = [⟨0, .own, .property "id"⟩, ⟨1, .left, .property "customerId"⟩,
      ⟨1, .own, .property "id"⟩, ⟨2, .left, .property "customerId"⟩, ⟨2, .own, .property "id"⟩] ∧
    s.references = [(some "o", "id"), (some "o", "customer_id"), (some "c", "id"),
      (some "c", "customer_id"), (some "d", "id")] := by
  obtain ⟨s, made⟩ : ∃ s, (empty.run astray).select ⟨0, 0⟩ = .ok s := ⟨_, rfl⟩
  obtain ⟨⟨t, ht, cites⟩, -⟩ := references_run (by decide) (by decide) made
  refine ⟨s, t, made, ht, cites, ?_⟩
  obtain rfl := Except.ok.inj made
  obtain rfl := Option.some.inj ht
  exact ⟨by decide, rfl⟩

theorem node_mem_trees {f : Forest} (hr : f.hasNode r) : ∃ t ∈ f.trees, f.node r ∈ t.nodes := by
  obtain ⟨t, ht, small⟩ := hasNode_iff.mp hr
  exact ⟨t, List.mem_of_getElem? ht, node_eq ht ▸ t.node_mem small⟩

/-- No order goes by the alias that stands before the columns of orders. -/
theorem not_loyal_astray : empty.admits astray ∧
    (∃ s t, (empty.run astray).select ⟨0, 0⟩ = .ok s ∧ (empty.run astray).tree? 0 = some t ∧
      ¬ List.Forall₂ ((empty.run astray).Loyal t) (t.mentions 0 (changesIn astray 0)) s.references) ∧
    ∃ s t, (empty.run astray).select ⟨1, 0⟩ = .ok s ∧ (empty.run astray).tree? 1 = some t ∧
      ¬ List.Forall₂ ((empty.run astray).Loyal t) (t.mentions 0 (changesIn astray 1)) s.references := by
  have customers : ∀ t ∈ (empty.run astray).trees, ∀ n ∈ t.nodes, n.aliasName = "c" →
      n.entity ≠ ⟨"order", "Order", "order"⟩ := by decide
  have disloyal {t : Tree} {m : Mention} (meant : t.meant? m = some ⟨"order", "Order", "order"⟩) :
      ¬ (empty.run astray).Loyal t m (some "c", "customer_id") := by
    intro loyal
    obtain ⟨r, c, hr, entity, -, written⟩ := loyal _ meant
    obtain ⟨t', ht', mem⟩ := node_mem_trees hr
    exact customers t' ht' _ mem (Option.some.inj (Prod.mk.inj written).1).symm entity
  refine ⟨by decide, ⟨_, _, rfl, rfl, fun all => ?_⟩, _, _, rfl, rfl, fun all => ?_⟩
  · let left : Mention := ⟨2, .left, .property "customerId"⟩
    exact disloyal rfl (List.forall₂_zip all (a := left) (by decide))
  · let outer : Mention := ⟨0, .outer ⟨"order", "Order", "order"⟩, .property "customerId"⟩
    exact disloyal rfl (List.forall₂_zip all (a := outer) (by decide))

end Forest

end QueryForest
