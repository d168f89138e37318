import QueryForest.Proofs.Forest.Actions
import QueryForest.Proofs.Forest.Constancy

set_option autoImplicit false

/-!
# The nodes around queries

A query that is begun from a node can be correlated with this node, but only from its root and the branches
of its root: these have the node around them, and the joins of the query and their branches have none
(`Inherits`). So it is told by the actions that have begun the trees, and by the origin of a node, whether
a correlated filter succeeds on it (`correlation_enclosed`).
-/

namespace QueryForest

/-- For each tree that some actions begin, in their order, the node around it, if there is one. -/
def beginnings (actions : List Action) : List (Option NodeRef) := actions.filterMap Action.begun?

/-- The node from which a tree was begun, if it was begun as a query in another one. -/
def enclosing? (actions : List Action) (i : TreeId) : Option NodeRef := (beginnings actions)[i]?.join

namespace Forest

variable {f g : Forest} {r : NodeRef} {t : Tree} {log : List (Option NodeRef)}

/-! ## Nodes of one tree -/

/-- Whether the nodes with the origin of a root have the node around it around them, and all others have
none. -/
def Inherits (f : Forest) : Prop :=
  ∀ r, f.hasNode r →
    (f.node r).outer = if (f.node r).origin = 0 then (f.node ⟨r.tree, 0⟩).outer else none

theorem hasNode_root (hr : f.hasNode r) : f.hasNode ⟨r.tree, 0⟩ := by
  obtain ⟨t, ht, small⟩ := hasNode_iff.mp hr
  exact hasNode_iff.mpr ⟨t, ht, Nat.zero_lt_of_lt small⟩

theorem inherits_empty : empty.Inherits := fun _ hr => absurd (hasNode_lt hr) (Nat.not_lt_zero _)

/-- A node that is there keeps its origin, the node around it, and what its root has of this. -/
theorem Inherits.old {attached : Option (NodeRef × NodeRef)} (h : f.Inherits) (step : Step f attached g)
    (hr : f.hasNode r) :
    (g.node r).outer = if (g.node r).origin = 0 then (g.node ⟨r.tree, 0⟩).outer else none := by
  have outer {s : NodeRef} (hs : f.hasNode s) := step.constant Node.constant_outer hs
  rw [outer hr, step.constant Node.constant_origin hr, outer (hasNode_root hr)]
  exact h r hr

/-- **A branch takes over the node around its own, and a join has none.** -/
theorem Step.inherits {attached : Option (NodeRef × NodeRef)} (step : Step f attached g)
    (h : f.Inherits) : g.Inherits := by
  intro r hr
  by_cases there : f.hasNode r
  · exact h.old step there
  · rcases step.renews with ⟨-, same⟩ | ⟨s, n, renews, updated⟩
    · exact absurd ((same r).mp hr) there
    · obtain rfl : r = s := ((updated.hasNode r).mp hr).resolve_left there
      rw [updated.node_self]
      cases renews with
      | root entity aliasName result outer enclosing =>
          rw [if_pos rfl, updated.node_self]
      | @branch i t id ht small =>
          have copied : f.hasNode ⟨i, id⟩ := hasNode_iff.mpr ⟨t, ht, small⟩
          have same : f.node ⟨i, id⟩ = t.node id := node_eq (r := ⟨i, id⟩) ht
          have root : (⟨i, 0⟩ : NodeRef) ≠ ⟨i, t.nodes.length⟩ := fun here =>
            Nat.ne_of_lt (Nat.zero_lt_of_lt small) (congrArg NodeRef.node here)
          rw [updated.node_of_ne root]
          exact same ▸ h ⟨i, id⟩ copied
      | join source kind aliasName ht small =>
          -- The origin of a join is the join itself, which is not the root.
          exact (if_neg (Nat.ne_of_gt (Nat.zero_lt_of_lt small))).symm
      | attach parent there' => exact absurd there' there
      | edit e there' => exact absurd there' there

theorem Steps.inherits {attached : List (NodeRef × NodeRef)} (steps : Steps f attached g)
    (h : f.Inherits) : g.Inherits := by
  induction steps with
  | refl => exact h
  | head step _ ih => exact ih (step.inherits h)

/-! ## Roots -/

/-- Whether a list tells for each tree which node is around its root. -/
structure Rooted (f : Forest) (log : List (Option NodeRef)) : Prop where
  length : f.trees.length = log.length
  outer : ∀ i < log.length, (f.node ⟨i, 0⟩).outer = log[i]?.join

theorem Sound.root_there (h : f.Sound) {i : TreeId} (hi : i < f.trees.length) : f.hasNode ⟨i, 0⟩ := by
  have ht : f.tree? i = some f.trees[i] := List.getElem?_eq_getElem hi
  exact hasNode_iff.mpr ⟨_, ht, (h.tree i _ ht).linked.nonempty⟩

/-- An action that begins a tree adds the node around it to the list. -/
theorem Rooted.after (h : f.Rooted log) (sound : f.Sound) (a : Action)
    (there : ∀ r ∈ a.nodes, f.hasNode r) : (f.after a).Rooted (log ++ a.begun?.toList) := by
  have does := sound.after_does a there
  have old {i : TreeId} (hi : i < log.length) :
      ((f.after a).node ⟨i, 0⟩).outer = (log ++ a.begun?.toList)[i]?.join := by
    have root := sound.root_there (h.length ▸ hi)
    rw [(sound.after_steps a there).constant Node.constant_outer root,
      List.getElem?_append_left hi, h.outer i hi]
  constructor
  · rw [does.length, h.length, List.length_append]
  · intro i hi
    rcases Nat.lt_or_ge i log.length with before | new
    · exact old before
    · cases begins : a.begun? with
      | none =>
          rw [begins, Option.toList_none, List.append_nil] at hi
          exact absurd hi (Nat.not_lt_of_le new)
      | some outer =>
          rw [begins, Option.toList_some, List.length_append, List.length_singleton] at hi
          obtain rfl : i = log.length := Nat.le_antisymm (Nat.le_of_lt_succ hi) new
          rw [Option.toList_some, List.getElem?_concat_length, ← h.length]
          exact does.begins begins

theorem Rooted.run {actions : List Action} (h : f.Rooted log) (sound : f.Sound)
    (admitted : f.admits actions) : (f.run actions).Rooted (log ++ beginnings actions) := by
  induction actions generalizing f log with
  | nil => exact (List.append_nil log).symm ▸ h
  | cons a rest ih =>
      obtain ⟨there, admitted⟩ := admits_cons.mp admitted
      have rooted := ih (h.after sound a there) ((sound.after_steps a there).sound sound) admitted
      have split : a.begun?.toList ++ beginnings rest = beginnings (a :: rest) := by
        unfold beginnings
        cases begins : a.begun? <;> simp [begins]
      rwa [List.append_assoc, split] at rooted

theorem rooted_empty : empty.Rooted [] := ⟨rfl, fun _ hi => absurd hi (Nat.not_lt_zero _)⟩

theorem rooted_run {actions : List Action} (admitted : empty.admits actions) :
    (empty.run actions).Rooted (beginnings actions) :=
  rooted_empty.run sound_empty admitted

/-- The tree that an action begins has the node around it that the action was asked of. -/
theorem enclosing?_begun {before later : List Action} {a : Action} {outer : Option NodeRef}
    (admitted : empty.admits before) (begins : a.begun? = some outer) :
    enclosing? (before ++ a :: later) (empty.run before).trees.length = outer := by
  have split : beginnings (before ++ a :: later) = beginnings before ++ outer :: beginnings later := by
    unfold beginnings
    rw [List.filterMap_append, List.filterMap_cons_some begins]
  rw [enclosing?, split, (rooted_run admitted).length, List.getElem?_append_right (Nat.le_refl _),
    Nat.sub_self]
  rfl

/-! ## Correlated filters -/

/-- **After every run a node has the node around it from which its tree was begun, when it is the root of
the tree or a branch of the root, and none otherwise.** -/
theorem outer_run {actions : List Action} (admitted : empty.admits actions)
    (hr : (empty.run actions).hasNode r) : ((empty.run actions).node r).outer
      = if ((empty.run actions).node r).origin = 0 then enclosing? actions r.tree else none := by
  have rooted := rooted_run admitted
  have inherits := (sound_empty.run_steps actions admitted).inherits inherits_empty
  rw [inherits r hr, rooted.outer r.tree (rooted.length ▸ hasNode_lt hr)]
  rfl

section Correlated

variable {target outerTarget : Target} {comparison : Sql.Comparison} {outerEntity : Entity}
  {c outerColumn : ColumnRef}

/-- A correlated filter whose columns are found is made when there is a node around whose tree lives. -/
theorem perform_correlate (comparison : Sql.Comparison) (ht : f.tree? r.tree = some t)
    (found : t.column r.node target = .ok c)
    (foundOuter : t.resolve outerEntity outerTarget = .ok outerColumn) :
    (Call.change r (.correlate target comparison outerEntity outerTarget)).perform f
      = match (f.node r).outer.filter fun o => f.isAlive o.tree with
        | none => .error (.missingReference (f.node r).aliasName .noEnclosingQuery) f
        | some o =>
          .ok r (f.edit r (.filter (.outer c comparison (f.node o).aliasName outerColumn.column))) := by
  have performed := (Change.correlate target comparison outerEntity outerTarget).perform_eq ht
    fun q hq => absurd hq List.not_mem_nil
  rw [node_eq ht]
  rw [Change.requests, found] at performed
  cases around : (t.node r.node).outer.filter fun o => f.isAlive o.tree with
  | none =>
      simp only [around, bind, Except.bind] at performed
      exact Build.then_error r performed
  | some o =>
      simp only [around, foundOuter, bind, Except.bind] at performed
      exact Build.then_ok r performed

/-- **After every run a correlated filter whose columns are found succeeds on the root of a query and on its
branches, as long as the tree lives from which the query was begun, and it records the alias of the node
that the query was begun from. It fails for want of a query around just on all other nodes of the query, in
trees that were not begun from a node, and when the tree of this node no longer lives.** -/
theorem correlation_enclosed {actions : List Action} (admitted : empty.admits actions)
    (run : empty.run actions = f) (ht : f.tree? r.tree = some t) (small : r.node < t.nodes.length)
    (found : t.column r.node target = .ok c)
    (foundOuter : t.resolve outerEntity outerTarget = .ok outerColumn) :
    (t.origin r.node = 0 → ∀ n, enclosing? actions r.tree = some n → f.isAlive n.tree →
      (Call.change r (.correlate target comparison outerEntity outerTarget)).perform f = .ok r
        (f.edit r (.filter (.outer c comparison (f.node n).aliasName outerColumn.column)))) ∧
    ((Call.change r (.correlate target comparison outerEntity outerTarget)).perform f
        = .error (.missingReference (t.aliasOf r.node) .noEnclosingQuery) f ↔
      t.origin r.node ≠ 0 ∨ ∀ n, enclosing? actions r.tree = some n → f.isAlive n.tree = false) := by
  have hr : f.hasNode r := hasNode_iff.mpr ⟨t, ht, small⟩
  have same : f.node r = t.node r.node := node_eq ht
  have outer : (f.node r).outer = if t.origin r.node = 0 then enclosing? actions r.tree else none := by
    subst run
    rw [outer_run admitted hr, same]
    rfl
  have perform := perform_correlate comparison ht found foundOuter
  have aliasOf : (f.node r).aliasName = t.aliasOf r.node := by rw [same]; rfl
  rw [outer, aliasOf] at perform
  by_cases inherits : t.origin r.node = 0
  · rw [if_pos inherits] at perform
    cases around : enclosing? actions r.tree with
    | none =>
        rw [around] at perform
        exact ⟨fun _ n begun => absurd begun nofun, fun _ => Or.inr nofun, fun _ => perform⟩
    | some n =>
        rw [around] at perform
        cases alive : f.isAlive n.tree with
        | true =>
            simp only [Option.filter, alive, if_true] at perform
            rw [perform]
            refine ⟨fun _ n' begun _ => ?_, nofun, ?_⟩
            · rw [Option.some.inj begun]
            · rintro (other | dropped)
              · exact absurd inherits other
              · exact absurd (alive.symm.trans (dropped n rfl)) nofun
        | false =>
            simp only [Option.filter, alive, Bool.false_eq_true, if_false] at perform
            refine ⟨fun _ n' begun lives => ?_, fun _ => Or.inr fun n' begun => ?_, fun _ => perform⟩
            · rw [← Option.some.inj begun, alive] at lives
              exact absurd lives nofun
            · rw [← Option.some.inj begun, alive]
  · rw [if_neg inherits] at perform
    exact ⟨fun root => absurd root inherits, fun _ => Or.inl inherits, fun _ => perform⟩

end Correlated

/-- A query for the items of an order, with a branch and a join. -/
def sheltered : List Action :=
  [.call (.root {} ⟨"order", "Order", "orders"⟩ (some "o") {}),
    .hold "orders" ⟨0, 0⟩,
    .call (.subQuery ⟨0, 0⟩ ⟨"item", "Item", "items"⟩ (some "i")),
    .call (.branch ⟨1, 0⟩),
    .call (.join ⟨1, 0⟩ ⟨"product", "Product", "products"⟩ .inner (some "p"))]

/-- The items are to be those of the order. -/
def ofOrder : Change :=
  .correlate (.column "order_id") .eq ⟨"order", "Order", "orders"⟩ (.column "id")

/-- The branch can be correlated until the order is let go. -/
theorem correlation_enclosed_branch :
    (∃ f, empty.run sheltered = f ∧ (Call.change ⟨1, 1⟩ ofOrder).perform f
      = .ok ⟨1, 1⟩ (f.edit ⟨1, 1⟩ (.filter (.outer ⟨"order_id", none⟩ .eq "o" "id")))) ∧
    ∃ f, empty.run (sheltered ++ [.release "orders"]) = f ∧ (Call.change ⟨1, 1⟩ ofOrder).perform f
      = .error (.missingReference "i" .noEnclosingQuery) f := by
  constructor
  · let t := ((empty.run sheltered).tree? 1).get (by decide)
    have ht : (empty.run sheltered).tree? 1 = some t := (Option.some_get _).symm
    obtain ⟨made, -⟩ := @correlation_enclosed _ ⟨1, 1⟩ t (.column "order_id") (.column "id") .eq
      ⟨"order", "Order", "orders"⟩ ⟨"order_id", none⟩ ⟨"id", none⟩ sheltered (by decide) rfl ht
      (by decide) rfl rfl
    exact ⟨_, rfl, made (by decide) ⟨0, 0⟩ (by decide) (by decide)⟩
  · let t := ((empty.run (sheltered ++ [.release "orders"])).tree? 1).get (by decide)
    have ht : (empty.run (sheltered ++ [.release "orders"])).tree? 1 = some t :=
      (Option.some_get _).symm
    obtain ⟨-, refused⟩ := @correlation_enclosed _ ⟨1, 1⟩ t (.column "order_id") (.column "id") .eq
      ⟨"order", "Order", "orders"⟩ ⟨"order_id", none⟩ ⟨"id", none⟩ (sheltered ++ [.release "orders"])
      (by decide) rfl ht (by decide) rfl rfl
    exact ⟨_, rfl, refused.mpr (Or.inr fun n begun => Option.some.inj begun ▸ (by decide))⟩

/-- The join of a query cannot be correlated, though the order from which the query was begun lives. -/
theorem not_correlated_join : ∃ f t, empty.run sheltered = f ∧ empty.admits sheltered ∧
    enclosing? sheltered 1 = some ⟨0, 0⟩ ∧ f.isAlive 0 ∧ f.tree? 1 = some t ∧ 2 < t.nodes.length ∧
    t.column 2 (.column "order_id") = .ok ⟨"order_id", none⟩ ∧
    t.resolve ⟨"order", "Order", "orders"⟩ (.column "id") = .ok ⟨"id", none⟩ ∧
    (Call.change ⟨1, 2⟩ ofOrder).perform f = .error (.missingReference "p" .noEnclosingQuery) f := by
  refine ⟨_, _, rfl, by decide, by decide, by decide, rfl, by decide, rfl, rfl, ?_⟩
  exact perform_correlate .eq (f := empty.run sheltered) rfl rfl rfl

end Forest

end QueryForest
