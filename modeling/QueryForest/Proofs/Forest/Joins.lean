import QueryForest.Proofs.Forest.Actions
import QueryForest.Proofs.Forest.Attachment
import QueryForest.Proofs.Forest.Constancy

set_option autoImplicit false

/-!
# The life of a join

A join is created, is given conditions and is attached, and none of this is ever taken back: after every
run it is the same join with at least the conditions that it had, and with the parent that it had
(`Node.Succeeds`). In between it answers the calls on it by what it has become (`JoinAnswers`), and calls
on other nodes have no effect on it (`join_lifecycle`).
-/

namespace QueryForest

/-! ## States -/

/-- The place of a state in the life of a join. -/
def JoinState.rank : JoinState → Nat
  | created => 0
  | conditioned => 1
  | attached => 2

namespace JoinEdge

variable {edge edge' edge'' : JoinEdge}

theorem state_attached {parent : NodeId} (h : edge.parent = some parent) : edge.state = .attached := by
  rw [state, h]
  rfl

/-- Whether a link has become another one: its parent stays once it has one, and conditions are only added
behind those that it has. -/
structure Becomes (edge edge' : JoinEdge) : Prop where
  kind : edge'.kind = edge.kind
  reference : edge'.reference = edge.reference
  parent : ∀ parent, edge.parent = some parent → edge'.parent = some parent
  conditions : edge.conditions <+: edge'.conditions

namespace Becomes

theorem refl (edge : JoinEdge) : edge.Becomes edge := ⟨rfl, rfl, fun _ h => h, List.prefix_refl _⟩

theorem trans (first : edge.Becomes edge') (rest : edge'.Becomes edge'') : edge.Becomes edge'' where
  kind := rest.kind.trans first.kind
  reference := rest.reference.trans first.reference
  parent := fun parent h => rest.parent parent (first.parent parent h)
  conditions := first.conditions.trans rest.conditions

/-- Once attached, a join stays attached. -/
theorem attached (h : edge.Becomes edge') (before : edge.state = .attached) :
    edge'.state = .attached := by
  obtain ⟨parent, has⟩ : ∃ parent, edge.parent = some parent := by
    unfold state at before
    split at before
    · next isSome => exact Option.isSome_iff_exists.mp isSome
    · split at before <;> exact absurd before nofun
  exact state_attached (h.parent parent has)

/-- **The state of a join only moves forward.** -/
theorem rank_le (h : edge.Becomes edge') : edge.state.rank ≤ edge'.state.rank := by
  cases parent : edge.parent with
  | some p =>
      have same : edge.state = edge'.state :=
        (state_attached parent).trans (state_attached (h.parent p parent)).symm
      exact Nat.le_of_eq (congrArg JoinState.rank same)
  | none =>
      cases conditions : edge.conditions with
      | nil =>
          have created : edge.state = .created := by simp [state, parent, conditions]
          rw [created]
          exact Nat.zero_le _
      | cons c rest =>
          have conditioned : edge.state = .conditioned := by simp [state, parent, conditions]
          have kept : edge'.conditions ≠ [] := fun none => by
            have nil := List.prefix_nil.mp (none ▸ h.conditions)
            rw [conditions] at nil
            exact absurd nil nofun
          rw [conditioned, state]
          split
          · decide
          · exact Nat.le_of_eq (by rw [if_neg (mt List.isEmpty_iff.mp kept)])

end Becomes

end JoinEdge

/-- Whether a node has become another one: it takes its rows from the same source, and as a join it is the
same join. -/
structure Node.Succeeds (n n' : Node) : Prop where
  source : n'.source = n.source
  join : ∀ edge, n.join = some edge → ∃ edge', n'.join = some edge' ∧ edge.Becomes edge'

namespace Node.Succeeds

variable {n n' n'' : Node}

theorem refl (n : Node) : n.Succeeds n := ⟨rfl, fun edge h => ⟨edge, h, .refl edge⟩⟩

theorem trans (first : n.Succeeds n') (rest : n'.Succeeds n'') : n.Succeeds n'' := by
  refine ⟨rest.source.trans first.source, fun edge h => ?_⟩
  obtain ⟨edge', h', becomes⟩ := first.join edge h
  obtain ⟨edge'', h'', becomes'⟩ := rest.join edge' h'
  exact ⟨edge'', h'', becomes.trans becomes'⟩

theorem edit (e : Edit) (n : Node) : n.Succeeds (e.apply n) := by
  refine ⟨e.source_apply n, fun edge h => ?_⟩
  obtain ⟨conditions, applied⟩ := e.join_apply n
  refine ⟨{ edge with conditions := edge.conditions ++ conditions }, by rw [applied, h]; rfl, ?_⟩
  exact ⟨rfl, rfl, fun _ h => h, List.prefix_append _ _⟩

/-- Only a join without a parent is attached. -/
theorem attach {edge : JoinEdge} (join : n.join = some edge) (free : edge.parent = none)
    (parent : NodeId) : n.Succeeds (Tree.setParent parent n) := by
  refine ⟨rfl, fun edge' h => ?_⟩
  obtain rfl := Option.some.inj (join.symm.trans h)
  refine ⟨{ edge with parent := some parent }, by rw [Tree.setParent, join]; rfl, rfl, rfl, ?_, ?_⟩
  · intro current taken
    exact absurd (free.symm.trans taken) (Option.some_ne_none current).symm
  · exact List.prefix_refl _

end Node.Succeeds

namespace Forest

variable {f g : Forest} {r : NodeRef} {t : Tree} {edge : JoinEdge}

/-! ## Runs -/

theorem Step.succeeds {attached : Option (NodeRef × NodeRef)} (step : Step f attached g)
    (hr : f.hasNode r) : (f.node r).Succeeds (g.node r) := by
  rcases step.renews with ⟨same, -⟩ | ⟨s, n, renews, updated⟩
  · rw [same]
    exact .refl _
  · by_cases here : r = s
    · subst here
      rw [updated.node_self]
      rcases renews.old hr with ⟨edge, parent, join, free, rfl⟩ | ⟨e, rfl⟩
      · exact .attach join free parent
      · exact .edit e _
    · rw [updated.node_of_ne here]
      exact .refl _

theorem Steps.succeeds {log : List (NodeRef × NodeRef)} (steps : Steps f log g) (hr : f.hasNode r) :
    (f.node r).Succeeds (g.node r) := by
  induction steps with
  | refl => exact .refl _
  | head step _ ih => exact (step.succeeds hr).trans (ih (step.kept.hasNode hr))

/-! ## Calls on a join -/

/-- What the calls on a join come to, by what the join is. -/
structure JoinAnswers (f : Forest) (r : NodeRef) (edge : JoinEdge) : Prop where
  /-- A parent in another tree is refused, whatever else is wrong with it. -/
  foreign : ∀ parent, f.hasNode parent → parent.tree ≠ r.tree →
    (Call.attachTo r parent).perform f = .error (.foreignNode (f.node parent).aliasName) f
  /-- A second parent is refused, also when it hangs below the join. -/
  again : ∀ current, edge.parent = some current → ∀ parent, f.hasNode parent → parent.tree = r.tree →
    (Call.attachTo r parent).perform f = .error (.joinAlreadyAttached (f.node r).aliasName
      (f.node ⟨r.tree, current⟩).aliasName) f
  /-- The first parent is refused when it hangs below the join. -/
  cycle : edge.parent = none → ∀ t, f.tree? r.tree = some t → ∀ parent, f.hasNode parent →
    parent.tree = r.tree → t.Encloses r.node parent.node →
      (Call.attachTo r parent).perform f = .error (.cycle (f.node r).aliasName) f
  /-- Any other first parent is taken, with conditions or without. -/
  first : edge.parent = none → ∀ t, f.tree? r.tree = some t → ∀ parent, f.hasNode parent →
    parent.tree = r.tree → ¬ t.Encloses r.node parent.node →
      ∃ g, (Call.attachTo r parent).perform f = .ok r g ∧
        (g.node r).join = some { edge with parent := some parent.node }
  /-- Without a parent of its own a call means the node that the join was created from. -/
  own : f.hasNode ⟨r.tree, edge.reference⟩ ∧
    (Call.attach r).perform f = (Call.attachTo r ⟨r.tree, edge.reference⟩).perform f
  /-- A condition is added at the end, whether the join is attached or not. -/
  on : ∀ t, f.tree? r.tree = some t → ∀ property c, t.column r.node (.property property) = .ok c →
    ∃ g, (Call.change r (.on property)).perform f = .ok r g ∧
      (g.node r).join = some { edge with conditions := edge.conditions ++ [⟨c.column, c.column⟩] }
  onWith : ∀ t, f.tree? r.tree = some t → ∀ left right a b,
    t.column edge.reference left = .ok a → t.column r.node right = .ok b →
      ∃ g, (Call.change r (.onWith left right)).perform f = .ok r g ∧
        (g.node r).join = some { edge with conditions := edge.conditions ++ [⟨a.column, b.column⟩] }

theorem reference_eq (join : (f.node r).join = some edge) : f.reference r = ⟨r.tree, edge.reference⟩ := by
  rw [reference, join]
  rfl

/-- An attachment in one tree fails as the tree says. -/
theorem attachTo_refused (ht : f.tree? r.tree = some t) {parent : NodeRef} (hp : f.hasNode parent)
    (here : parent.tree = r.tree) {e : QueryError} (refused : t.attach r.node parent.node = .error e) :
    (Call.attachTo r parent).perform f = .error e f := by
  have performed := Build.attachTo_apply ht hp
  rw [if_neg (not_not_intro here.symm), refused] at performed
  exact Build.then_error r performed

theorem attachTo_taken (ht : f.tree? r.tree = some t) {parent : NodeRef} (hp : f.hasNode parent)
    (here : parent.tree = r.tree) {t' : Tree} (taken : t.attach r.node parent.node = .ok t') :
    (Call.attachTo r parent).perform f = .ok r (f.setTree r.tree t') := by
  have performed := Build.attachTo_apply ht hp
  rw [if_neg (not_not_intro here.symm), taken] at performed
  exact Build.then_ok r performed

/-- A change that asks for one more condition gets it. -/
theorem condition_added (ht : f.tree? r.tree = some t) (hr : f.hasNode r)
    (join : (f.node r).join = some edge) (what : Change) (plain : what.queries = []) {c : OnCondition}
    (requests : what.requests f t r = [.ok (.condition c)]) :
    ∃ g, (Call.change r what).perform f = .ok r g ∧
      (g.node r).join = some { edge with conditions := edge.conditions ++ [c] } := by
  have performed := what.perform_eq ht fun q hq => absurd (plain ▸ hq) List.not_mem_nil
  rw [requests] at performed
  refine ⟨f.edit r (.condition c), Build.then_ok r performed, ?_⟩
  have edited : (f.edit r (.condition c)).node r = (f.node r).addCondition c :=
    (updated_foldl_edit hr [.condition c]).node_self
  rw [edited, Node.addCondition, join]
  rfl

/-- **What the calls on a join come to.** -/
theorem Sound.joinAnswers (h : f.Sound) (hr : f.hasNode r) (join : (f.node r).join = some edge) :
    f.JoinAnswers r edge := by
  obtain ⟨t, ht, small⟩ := hasNode_iff.mp hr
  have linked := (h.tree r.tree t ht).linked
  have same : f.node r = t.node r.node := node_eq ht
  have joinInTree : (t.node r.node).join = some edge := same ▸ join
  have isJoin : t.IsJoin r.node := by rw [Tree.IsJoin, joinInTree]; rfl
  have parentInTree : t.parent? r.node = edge.parent := by rw [Tree.parent?, joinInTree]; rfl
  have aliasOf : t.aliasOf r.node = (f.node r).aliasName := by rw [same]; rfl
  constructor
  case foreign =>
    intro parent hp other
    have performed := Build.attachTo_apply ht hp
    rw [if_pos (Ne.symm other)] at performed
    exact Build.then_error r performed
  case again =>
    intro current taken parent hp here
    have refused : t.attach r.node parent.node
        = .error (.joinAlreadyAttached (t.aliasOf r.node) (t.aliasOf current)) := by
      simp only [Tree.attach, joinInTree, taken]
    have aliasOfCurrent : t.aliasOf current = (f.node ⟨r.tree, current⟩).aliasName := by
      rw [node_eq (r := ⟨r.tree, current⟩) ht]
      rfl
    rw [aliasOf, aliasOfCurrent] at refused
    exact attachTo_refused ht hp here refused
  case cycle =>
    intro free t' ht' parent hp here below
    obtain rfl := Option.some.inj (ht.symm.trans ht')
    have refused := (linked.attach_error_iff isJoin (parentInTree.trans free)).mpr below
    rw [aliasOf] at refused
    exact attachTo_refused ht hp here refused
  case first =>
    intro free t' ht' parent hp here apart
    obtain rfl := Option.some.inj (ht.symm.trans ht')
    have taken : t.attach r.node parent.node = .ok (t.addLink r.node parent.node) := by
      rw [Tree.attach_eq isJoin (parentInTree.trans free), if_neg (mt linked.reaches_iff_encloses.mp apart)]
    refine ⟨_, attachTo_taken ht hp here taken, ?_⟩
    have linkedNode : f.Updated r (Tree.setParent parent.node (f.node r))
        (f.setTree r.tree (t.addLink r.node parent.node)) := .modify ht small rfl
    rw [linkedNode.node_self, Tree.setParent, join]
    rfl
  case own =>
    rw [← reference_eq join]
    exact ⟨h.hasNode_reference hr, perform_attach hr⟩
  case on =>
    intro t' ht' property c found
    obtain rfl := Option.some.inj (ht.symm.trans ht')
    refine condition_added ht hr join (.on property) rfl ?_
    rw [Change.requests, found]
    rfl
  case onWith =>
    intro t' ht' left right a b foundLeft foundRight
    obtain rfl := Option.some.inj (ht.symm.trans ht')
    refine condition_added ht hr join (.onWith left right) rfl ?_
    rw [Change.requests, reference_eq join, foundLeft, foundRight]
    rfl

/-- **From whatever callers have made, a join stays the same join with all further runs: its state only
moves forward, its kind, its source and the node that it was created from stay the same, and so does its
parent once it has one, and its conditions are only extended at the end. Runs that ask nothing of it leave
it as it is. At every time it answers the calls on it by what it has become: a parent in another tree is
refused for that, a second one in its own tree because of the first, which is named, also when it hangs
below the join, and conditions can be added also after it was attached.** -/
theorem join_lifecycle (h : f.Reachable) (hr : f.hasNode r) (join : (f.node r).join = some edge)
    {later : List Action} (admitted : f.admits later) :
    ((f.run later).node r).source = (f.node r).source ∧
    ((∀ a ∈ later, a.subject? ≠ some r) → (f.run later).node r = f.node r) ∧
    ∃ edge', ((f.run later).node r).join = some edge' ∧ edge.Becomes edge' ∧
      edge.state.rank ≤ edge'.state.rank ∧ (edge.state = .attached → edge'.state = .attached) ∧
      (f.run later).JoinAnswers r edge' := by
  have steps := h.sound.run_steps later admitted
  have succeeds := steps.succeeds hr
  obtain ⟨edge', join', becomes⟩ := succeeds.join edge join
  refine ⟨succeeds.source, fun elsewhere => ?_, edge', join', becomes, becomes.rank_le,
    becomes.attached, (steps.sound h.sound).joinAnswers (steps.kept.hasNode hr) join'⟩
  exact h.sound.run_spares (p := id) admitted hr fun a ha => Action.spares_of_ne (elsewhere a ha)

/-- An order with two joins of which nothing has been asked yet. -/
def unjoined : List Action :=
  [.call (.root {} ⟨"order", "Order", "orders"⟩ (some "o") {}),
    .call (.join ⟨0, 0⟩ ⟨"customer", "Customer", "customers"⟩ .inner (some "c")),
    .call (.join ⟨0, 0⟩ ⟨"address", "Address", "addresses"⟩ .left (some "a"))]

/-- The first join is attached before it has a condition. Then the second one is attached below it, and a
try to attach the first one below that fails. -/
def entwined : List Action :=
  [.call (.attach ⟨0, 1⟩),
    .call (.attachTo ⟨0, 2⟩ ⟨0, 1⟩),
    .call (.branch ⟨0, 1⟩),
    .call (.attachTo ⟨0, 1⟩ ⟨0, 2⟩),
    .call (.change ⟨0, 1⟩ (.onWith (.column "customer_id") (.column "id")))]

theorem join_lifecycle_entwined : ∃ edge f, (empty.run unjoined).run entwined = f ∧
    (f.node ⟨0, 1⟩).join = some edge ∧ JoinEdge.Becomes ⟨.inner, 0, none, []⟩ edge ∧
    edge.state = .attached ∧ edge.conditions = [⟨"customer_id", "id"⟩] ∧
    (Call.attachTo ⟨0, 1⟩ ⟨0, 2⟩).perform f = .error (.joinAlreadyAttached "c" "o") f := by
  have reachable : (empty.run unjoined).Reachable := ⟨unjoined, by decide, rfl⟩
  obtain ⟨-, -, edge, join, becomes, -, -, answers⟩ :=
    @join_lifecycle _ ⟨0, 1⟩ ⟨.inner, 0, none, []⟩ reachable (by decide) (by decide) entwined (by decide)
  have made : (((empty.run unjoined).run entwined).node ⟨0, 1⟩).join
      = some ⟨.inner, 0, some 0, [⟨"customer_id", "id"⟩]⟩ := by decide
  obtain rfl := Option.some.inj (join.symm.trans made)
  exact ⟨_, _, rfl, made, becomes, rfl, rfl, answers.again 0 rfl ⟨0, 2⟩ (by decide) rfl⟩

end Forest

end QueryForest
