import QueryForest.Proofs.Forest.Nesting
import QueryForest.Proofs.Forest.Runs

set_option autoImplicit false

/-!
# References between trees

A tree references another one when one of its nodes takes its rows from a query of this tree or
filters them by one. In every forest that callers can make no chain of references comes back to
where it began, as the calls that nest a query refuse just the queries whose tree leads back to the
host (`layered`).

So whatever goes from a tree to the trees that it references comes to an end. There are two such
recursions: the search for the host among the trees below a query, and the writing of a query with
the queries inside it. Neither goes deeper than there are trees. To say so, each of them is given a
bound and something that shows when the bound is reached: the search has no answer then (`seek`),
and the writing goes on with any result whatever (`selectFrom`).
-/

namespace QueryForest

open Relation (ReflTransGen TransGen)
open Sql (Select)

namespace Forest

variable {f : Forest} {t : Tree} {i j : TreeId} {host query r : NodeRef}

/-- Whether a node of a tree takes its rows from a query of another tree, or filters them by one. -/
def References (f : Forest) (i j : TreeId) : Prop :=
  ∃ t, f.tree? i = some t ∧ ∃ n ∈ t.nodes, ∃ q : NodeRef, q.tree = j ∧
    (n.source.query? = some q ∨ ∃ p ∈ n.filters, p.query? = some q)

theorem references_eq : f.References = Graph.Edge f.nestedIn := by
  funext i j
  refine propext (Iff.trans ?_ edge_iff.symm)
  unfold References queriesOf
  cases f.tree? i with
  | none => simp
  | some t =>
      simp only [Option.some.injEq, exists_eq_left', Option.elim_some, Tree.mem_queries,
        Node.mem_queries]
      constructor
      · rintro ⟨n, hn, q, rfl, hq⟩
        exact ⟨q, ⟨n, hn, hq⟩, rfl⟩
      · rintro ⟨q, ⟨n, hn, hq⟩, rfl⟩
        exact ⟨n, hn, q, rfl, hq⟩

/-- The search for a tree: in a tree itself, and then in each of those nested in it in turn, until
it is found. There is no answer when this leads through more than `depth` trees. -/
def seek (f : Forest) (target : TreeId) : (depth : Nat) → TreeId → Option Bool
  | 0, _ => none
  | depth + 1, i =>
    if i = target then some true else (f.nestedIn i).anyM (f.seek target depth)

/-- The query of a node, with `beyond` for the queries that nest `depth` deep below it. -/
def selectFrom (f : Forest) (beyond : NodeRef → Except QueryError Select) :
    (depth : Nat) → NodeRef → Except QueryError Select
  | 0, r => beyond r
  | depth + 1, r =>
    match f.tree? r.tree with
    | some t => t.select (f.selectFrom beyond depth) r.node
    | none => .error (.emptyProjection (f.node r).aliasName)

/-! ## The two recursions -/

theorem anyM_some {α : Type} {answer : α → Option Bool} {p : α → Bool} {l : List α}
    (each : ∀ a ∈ l, answer a = some (p a)) : l.anyM answer = some (l.any p) := by
  induction l with
  | nil => rfl
  | cons a l ih =>
      have rest := ih fun b hb => each b (List.mem_cons_of_mem a hb)
      rw [List.anyM, each a List.mem_cons_self, List.any_cons]
      cases p a with
      | true => rfl
      | false => exact rest

namespace Sound

/-- A tree contains another one that it is not itself just when one of those nested in it does. -/
theorem contains_of_ne (h : f.Sound) (hi : i < f.trees.length) (other : i ≠ j) :
    f.contains i j = (f.nestedIn i).any (f.contains · j) := by
  rw [Bool.eq_iff_iff, h.contains_iff hi, List.any_eq_true, Graph.reaches_iff]
  constructor
  · rintro (same | ⟨k, hk, path⟩)
    · exact absurd same.symm other
    · exact ⟨k, hk, (h.contains_iff (h.below i k hk)).mpr path⟩
  · rintro ⟨k, hk, found⟩
    exact Or.inr ⟨k, hk, (h.contains_iff (h.below i k hk)).mp found⟩

theorem rank_lt_of_references (h : f.Sound) (edge : f.References i j) : f.rank j < f.rank i := by
  rw [references_eq] at edge
  obtain ⟨q, hq, rfl⟩ := edge_iff.mp edge
  cases ht : f.tree? i with
  | none => simp [queriesOf, ht] at hq
  | some t => exact h.rank_lt (r := ⟨i, 0⟩) ht (queriesOf_eq ht ▸ hq)

/-- **The search comes to an answer,** and it is the one that `contains` gives. -/
theorem seek_eq (h : f.Sound) (hi : i < f.trees.length) {depth : Nat} (enough : f.rank i ≤ depth) :
    f.seek j depth i = some (f.contains i j) := by
  induction depth generalizing i with
  | zero =>
      have pos : 0 < f.rank i := List.length_pos_iff.mpr (Graph.preorder_ne_nil hi)
      omega
  | succ depth ih =>
      rw [seek]
      by_cases same : i = j
      · subst same
        rw [if_pos rfl, (h.contains_iff hi).mpr (Graph.Reaches.refl i)]
      · rw [if_neg same, h.contains_of_ne hi same]
        -- The trees nested in this one have lower ranks, so what is left of the depth is enough.
        refine anyM_some fun k hk => ih (h.below i k hk) ?_
        have smaller := h.rank_lt_of_references (references_eq ▸ hk : f.References i k)
        omega

/-- **The writing of a query comes to an end** before it would have to go on with `beyond`. -/
theorem selectFrom_eq (h : f.Sound) (hr : f.hasNode r)
    (beyond : NodeRef → Except QueryError Select) :
    ∀ depth, f.rank r.tree ≤ depth → f.selectFrom beyond depth r = f.select r := by
  refine h.nested_induction ?_ hr
  intro r t ht _ ih depth enough
  have pos := h.rank_pos ht
  obtain ⟨depth, rfl⟩ : ∃ n, depth = n + 1 := ⟨depth - 1, by omega⟩
  simp only [selectFrom, ht]
  rw [h.select_eq ht]
  refine Tree.select_congr (fun v q hq => ?_) r.node
  have nested : q ∈ t.queries := Tree.mem_queries_of_node hq
  have smaller := h.rank_lt ht nested
  exact ih q nested depth (by omega)

end Sound

/-! ## Refused queries -/

/-- Whether a call fails because a query would contain itself. -/
def Refuses {α : Type} (f : Forest) (call : Build α) : Prop :=
  ∃ aliasName g, call f = .error (.cycle aliasName) g

theorem checkNest_cycle :
    (∃ aliasName, f.checkNest host query = .error (.cycle aliasName)) ↔
      f.contains query.tree host.tree = true := by
  unfold checkNest
  split
  · next found => exact ⟨fun _ => found, fun _ => ⟨_, rfl⟩⟩
  · next apart => exact ⟨fun ⟨_, failed⟩ => absurd failed (by simp), fun found => absurd found apart⟩

theorem refuses_ofExcept {α : Type} {call : Build α} {x : Except QueryError α}
    (h : call f = Build.ofExcept x f) :
    f.Refuses call ↔ ∃ aliasName, x = .error (.cycle aliasName) := by
  unfold Refuses
  rw [h, Build.ofExcept_apply]
  cases x <;> simp

/-- A change that makes one edit is refused just when its request is. -/
theorem refuses_change (what : Change) (ht : f.tree? host.tree = some t)
    (hq : ∀ q ∈ what.queries, f.hasNode q) {request : Except QueryError Edit}
    (single : what.requests f t host = [request]) :
    f.Refuses (what.perform host) ↔ ∃ aliasName, request = .error (.cycle aliasName) := by
  unfold Refuses
  rw [what.perform_eq ht hq, single]
  cases request <;> simp [editAll]

theorem column_ne_cycle {id : NodeId} {target : Target} {aliasName : String} :
    t.column id target ≠ .error (.cycle aliasName) := by
  cases target with
  | column name => simp [Tree.column, Tree.resolve]
  | property name =>
      simp only [Tree.column, Tree.resolve]
      split <;> simp

theorem addJoin_ne_cycle {reference : NodeId} {source : NodeSource} {kind : Sql.JoinKind}
    {explicit : Option String} {aliasName : String} :
    t.addJoin reference source kind explicit ≠ .error (.cycle aliasName) := by
  intro failed
  rcases Outcome.bind_error failed with failed | ⟨_, _, made⟩
  · cases explicit <;>
      simp only [AliasTable.allocate, AliasTable.register] at failed <;> split at failed <;>
      simp [Except.map] at failed
  · exact absurd made (by simp [pure, Except.pure])

section Calls

variable (hh : f.hasNode host) (hq : f.hasNode query)

include hq in
theorem refuses_nest :
    f.Refuses (Build.nest host query) ↔ f.contains query.tree host.tree = true := by
  obtain ⟨u, hu⟩ := tree?_of_hasNode hq
  rw [refuses_ofExcept (Build.nest_apply hu), checkNest_cycle]

include hh hq

theorem refuses_existsQuery {negated : Bool} :
    f.Refuses (Build.existsQuery host query negated) ↔
      f.contains query.tree host.tree = true := by
  obtain ⟨t, ht⟩ := tree?_of_hasNode hh
  have same := refuses_change (.existsQuery query negated) ht
    (fun q mem => List.mem_singleton.mp mem ▸ hq) rfl
  rw [show f.Refuses (Build.existsQuery host query negated) ↔ _ from same, ← checkNest_cycle]
  cases f.checkNest host query <;> simp [bind, Except.bind, pure, Except.pure]

/-- The column is looked up before the check, so that a call for an unknown one fails for this. -/
theorem refuses_inQuery {target : Target} {negated : Bool} :
    f.Refuses (Build.inQuery host target query negated) ↔
      (∃ t c, f.tree? host.tree = some t ∧ t.column host.node target = .ok c) ∧
        f.contains query.tree host.tree = true := by
  obtain ⟨t, ht⟩ := tree?_of_hasNode hh
  have same := refuses_change (.inQuery target query negated) ht
    (fun q mem => List.mem_singleton.mp mem ▸ hq) rfl
  rw [show f.Refuses (Build.inQuery host target query negated) ↔ _ from same, ← checkNest_cycle]
  have known : (∃ u c, f.tree? host.tree = some u ∧ u.column host.node target = .ok c) ↔
      ∃ c, t.column host.node target = .ok c := by simp [ht]
  rw [known]
  cases found : t.column host.node target with
  | error e =>
      have other (aliasName : String) : e ≠ .cycle aliasName := fun same =>
        column_ne_cycle (same ▸ found)
      simp [bind, Except.bind, other]
  | ok c => cases f.checkNest host query <;> simp [bind, Except.bind, pure, Except.pure]

theorem refuses_joinQuery {kind : Sql.JoinKind} {explicit : Option String} :
    f.Refuses (Build.joinQuery host query kind explicit) ↔
      f.contains query.tree host.tree = true := by
  obtain ⟨t, ht⟩ := tree?_of_hasNode hh
  unfold Refuses
  rw [Build.joinQuery_apply hq]
  split
  · next found => exact ⟨fun _ => found, fun _ => ⟨_, _, rfl⟩⟩
  · next apart =>
    refine ⟨fun ⟨aliasName, g, failed⟩ => ?_, fun found => absurd found apart⟩
    rw [Build.addJoin_apply ht] at failed
    split at failed
    · exact absurd failed (by simp)
    · next e made =>
      obtain ⟨rfl, -⟩ := EStateM.Result.error.inj failed
      exact absurd made addJoin_ne_cycle

end Calls

/-! ## Layers -/

/-- Trees stand in layers: a tree only references trees of lower ones. -/
structure Layered (f : Forest) : Prop where
  /-- No tree comes back to itself along references. -/
  acyclic : ∀ i, ¬ TransGen f.References i i
  /-- Every way down along references comes to an end. -/
  wellFounded : WellFounded fun j i => f.References i j
  /-- A query is refused just when its tree is that of the host or leads there. -/
  nest : ∀ host query, f.hasNode host → f.hasNode query →
    (f.Refuses (Build.nest host query) ↔ ReflTransGen f.References query.tree host.tree)
  existsQuery : ∀ host query negated, f.hasNode host → f.hasNode query →
    (f.Refuses (Build.existsQuery host query negated) ↔
      ReflTransGen f.References query.tree host.tree)
  joinQuery : ∀ host query kind explicit, f.hasNode host → f.hasNode query →
    (f.Refuses (Build.joinQuery host query kind explicit) ↔
      ReflTransGen f.References query.tree host.tree)
  /-- Here the column is looked up first. -/
  inQuery : ∀ host target query negated, f.hasNode host → f.hasNode query →
    (f.Refuses (Build.inQuery host target query negated) ↔
      (∃ t c, f.tree? host.tree = some t ∧ t.column host.node target = .ok c) ∧
        ReflTransGen f.References query.tree host.tree)
  /-- The search of the check comes to its answer. -/
  seek : ∀ i < f.trees.length, ∀ target, f.seek target f.trees.length i = some (f.contains i target)
  /-- The writing of a query comes to its result. -/
  select : ∀ r, f.hasNode r → ∀ beyond, f.selectFrom beyond f.trees.length r = f.select r

/-- **In every forest that callers can make, the trees stand in layers: references never come back,
the calls that nest a query refuse just those that would, and what follows the references down comes
to an end within as many steps as there are trees.** -/
theorem layered (h : f.Reachable) : f.Layered := by
  have sound := h.sound
  have leads {host query : NodeRef} (hq : f.hasNode query) :
      f.contains query.tree host.tree = true ↔ ReflTransGen f.References query.tree host.tree := by
    rw [references_eq]
    exact sound.contains_iff (hasNode_lt hq)
  have rank_le {i : TreeId} (hi : i < f.trees.length) : f.rank i ≤ f.trees.length :=
    Graph.length_preorder_le sound.below hi
  constructor
  case acyclic => exact references_eq ▸ sound.acyclic
  case wellFounded =>
    exact Subrelation.wf sound.rank_lt_of_references (measure f.rank).wf
  case nest => exact fun host query _ hq => (refuses_nest hq).trans (leads hq)
  case existsQuery =>
    exact fun host query negated hh hq => (refuses_existsQuery hh hq).trans (leads hq)
  case joinQuery =>
    exact fun host query kind explicit hh hq => (refuses_joinQuery hh hq).trans (leads hq)
  case inQuery =>
    exact fun host target query negated hh hq =>
      (refuses_inQuery hh hq).trans (and_congr_right fun _ => leads hq)
  case seek => exact fun i hi target => sound.seek_eq hi (rank_le hi)
  case select =>
    exact fun r hr beyond => sound.selectFrom_eq hr beyond _ (rank_le (hasNode_lt hr))

/-- Orders, the customers that have some, as a query in the place of a table, and a branch of these.
-/
def layers : List Action :=
  [.call (.root {} ⟨"order", "Order", "orders"⟩ (some "o") {}),
    .call (.subQuery ⟨0, 0⟩ ⟨"customer", "Customer", "customers"⟩ (some "c")),
    .call (.subQuery ⟨1, 0⟩ ⟨"item", "Item", "items"⟩ (some "i")),
    .call (.change ⟨1, 0⟩ (.existsQuery ⟨2, 0⟩ false)),
    .call (.branch ⟨1, 0⟩),
    .call (.joinQuery ⟨0, 0⟩ ⟨1, 1⟩ .inner (some "j"))]

/-- The orders cannot be nested in the query that they reach by way of the branch. -/
theorem layered_layers :
    (empty.run layers).Refuses (Build.existsQuery ⟨2, 0⟩ ⟨0, 0⟩ true) ∧
      (empty.run layers).seek 2 3 0 = some true := by
  have reachable : (empty.run layers).Reachable := ⟨layers, by decide, rfl⟩
  have edge {i j : TreeId} (h : j ∈ (empty.run layers).nestedIn i) :
      (empty.run layers).References i j := by rw [references_eq]; exact h
  refine ⟨((layered reachable).existsQuery ⟨2, 0⟩ ⟨0, 0⟩ true (by decide) (by decide)).mpr ?_, ?_⟩
  · exact (ReflTransGen.single (edge (j := 1) (by decide))).tail (edge (by decide))
  · exact (layered reachable).seek 0 (by decide) 2

end Forest

end QueryForest
