import QueryForest.Proofs.Forest.Effects

set_option autoImplicit false

/-!
# Calls in another order

Effects in different places commute: edits of different nodes, links in different trees, and an edit with
any link (`Forest.take_comm`). So what some effects come to is told by those in each place, in their order
(`foldl_eq_of_filter_eq`). Two sequences of successful calls that agree on the changes of each node, and on
the attached joins of each tree, make the same forest (`Sound.run_agree`) and hence the same statements
(`render_interleaved`). A query may be completed before it is nested or behind it, and a join conditioned
before it is attached or behind it.
-/

namespace QueryForest

/-! ## Steps of several kinds -/

section Kinds

variable {α σ κ : Type} {step : σ → α → σ} {kind : α → κ}
  (comm : ∀ s a b, kind a ≠ kind b → step (step s a) b = step (step s b) a)

include comm

/-- A step that comes first of its kind may come first of all. -/
theorem foldl_first {before : List α} {a : α} (apart : ∀ b ∈ before, kind b ≠ kind a) (after : List α)
    (s : σ) : (before ++ a :: after).foldl step s = (before ++ after).foldl step (step s a) := by
  induction before generalizing s with
  | nil => rfl
  | cons b rest ih =>
      rw [List.cons_append, List.cons_append, List.foldl_cons, List.foldl_cons,
        ih fun c hc => apart c (List.mem_cons_of_mem b hc), comm s b a (apart b List.mem_cons_self)]

/-- **Steps of different kinds commute, so that the steps of each kind, in their order, tell what all of
them come to.** -/
theorem foldl_eq_of_filter_eq [DecidableEq κ] {l l' : List α}
    (same : ∀ k, l.filter (kind · = k) = l'.filter (kind · = k)) (s : σ) :
    l.foldl step s = l'.foldl step s := by
  have heads (b : α) (rest : List α) : b ∈ (b :: rest).filter (kind · = kind b) :=
    List.mem_filter.mpr ⟨List.mem_cons_self, decide_eq_true rfl⟩
  induction l generalizing l' s with
  | nil =>
      cases l' with
      | nil => rfl
      | cons b rest =>
          have first : b ∈ ([] : List α) := (List.mem_filter.mp (same (kind b) ▸ heads b rest)).1
          exact absurd first List.not_mem_nil
  | cons a rest ih =>
      have first : (a :: rest).filter (kind · = kind a) = a :: rest.filter (kind · = kind a) :=
        List.filter_cons_of_pos (decide_eq_true rfl)
      rw [same] at first
      obtain ⟨before, after, rfl, apart, -, behind⟩ := List.filter_eq_cons_iff.mp first
      have apart : ∀ b ∈ before, kind b ≠ kind a := by simpa using apart
      rw [foldl_first comm apart, List.foldl_cons]
      refine ih (fun k => ?_) (step s a)
      -- Without the first step, the steps of its kind still agree, and those of the others all along.
      by_cases here : kind a = k
      · subst here
        have none : before.filter (kind · = kind a) = [] :=
          List.filter_eq_nil_iff.mpr fun b hb => by simpa using apart b hb
        rw [List.filter_append, none, behind, List.nil_append]
      · have other := same k
        rw [List.filter_append, List.filter_cons_of_neg (by simpa using here),
          List.filter_cons_of_neg (by simpa using here)] at other
        rw [other, List.filter_append]

end Kinds

/-! ## Effects in different places -/

/-- The place of an effect: an edit is made on a node, a link in a tree. -/
def Effect.place : Effect → NodeRef ⊕ TreeId
  | edit r _ => .inl r
  | link join _ => .inr join.tree

namespace Tree

variable {v w join parent : NodeId}

/-- An edit does not ask whether its node is attached. -/
theorem setParent_apply (e : Edit) (parent : NodeId) (n : Node) :
    setParent parent (e.apply n) = e.apply (setParent parent n) := by
  cases e with
  | select c aliasName =>
      by_cases mem : .column c aliasName ∈ n.selected <;> simp [Edit.apply, Node.select, setParent, mem]
  | exclude column =>
      by_cases mem : column ∈ n.excluded <;> simp [Edit.apply, Node.exclude, setParent, mem]
  | condition c => simp [Edit.apply, Node.addCondition, setParent, Function.comp_def]
  | _ => rfl

/-- A link does not depend on edits. -/
theorem addLink_edit (t : Tree) (e : Edit) :
    (t.modify v e.apply).addLink join parent = (t.addLink join parent).modify v e.apply := by
  have nodes : (t.modify v e.apply).modify join (setParent parent)
      = (t.modify join (setParent parent)).modify v e.apply := by
    by_cases here : v = join
    · subst here
      rw [modify_modify, modify_modify]
      exact congrArg (t.modify v) (funext fun n => setParent_apply e parent n)
    · exact modify_comm here t e.apply (setParent parent)
  unfold addLink
  rw [nodes, origin_edit]
  rfl

end Tree

namespace Forest

variable {f : Forest} {calls calls' : List Call}

/-- **Effects in different places commute.** -/
theorem take_comm (f : Forest) (a b : Effect) (apart : a.place ≠ b.place) :
    (f.take a).take b = (f.take b).take a := by
  -- In different trees nothing meets. In one tree, two edits are made on different nodes.
  cases a with
  | edit r e =>
      cases b with
      | edit s e' =>
          simp only [take, edit_eq_modifyTree]
          by_cases here : r.tree = s.tree
          · have other : r.node ≠ s.node := fun same =>
              apart (congrArg Sum.inl (NodeRef.eq_of_node here same))
            rw [here, modifyTree_modifyTree, modifyTree_modifyTree]
            exact congrArg (f.modifyTree s.tree) (funext fun t => Tree.modify_comm other t _ _)
          · exact modifyTree_comm here _ _
      | link join parent =>
          simp only [take, edit_eq_modifyTree]
          by_cases here : r.tree = join.tree
          · rw [here, modifyTree_modifyTree, modifyTree_modifyTree]
            exact congrArg (f.modifyTree join.tree) (funext fun t => t.addLink_edit e)
          · exact modifyTree_comm here _ _
  | link join parent =>
      cases b with
      | edit s e' =>
          simp only [take, edit_eq_modifyTree]
          by_cases here : s.tree = join.tree
          · rw [here, modifyTree_modifyTree, modifyTree_modifyTree]
            exact congrArg (f.modifyTree join.tree) (funext fun t => (t.addLink_edit e').symm)
          · exact modifyTree_comm (Ne.symm here) _ _
      | link join' parent' =>
          exact modifyTree_comm (fun same => apart (congrArg Sum.inr same)) _ _

end Forest

/-! ## Calls that agree -/

/-- The single changes that a call makes on a node. -/
def Call.changesOn (r : NodeRef) : Call → List Change
  | .change s what => if s = r then what.singles else []
  | _ => []

/-- The join that a call attaches in a tree, and its parent. -/
def Call.linksIn (f : Forest) (i : TreeId) : Call → List (NodeRef × NodeRef)
  | .attach r => if r.tree = i then [(r, f.reference r)] else []
  | .attachTo r parent => if r.tree = i then [(r, parent)] else []
  | _ => []

namespace Forest

variable {f : Forest} {calls calls' : List Call}

/-- Whether two sequences of calls make the same changes on each node and attach the same joins in each
tree, both in the same order. -/
structure Agree (f : Forest) (calls calls' : List Call) : Prop where
  changes : ∀ r, calls.flatMap (Call.changesOn r) = calls'.flatMap (Call.changesOn r)
  links : ∀ i, calls.flatMap (Call.linksIn f i) = calls'.flatMap (Call.linksIn f i)

/-- Whether calls make no node, name nodes that are there before the first of them, and succeed. -/
structure Settles (f : Forest) (calls : List Call) : Prop where
  makesNone : ∀ what ∈ calls, what.makesNode = false
  there : ∀ what ∈ calls, ∀ r ∈ what.nodes, f.hasNode r
  accepted : f.acceptsAll calls

/-- The effects of the single calls that a call is made of. -/
def effectsOf (f : Forest) (what : Call) : List Effect := what.singles.filterMap (Call.effect? f)

/-- A change has its effect on its own node. -/
theorem place_of_change {r : NodeRef} {c : Change} {effect : Effect}
    (told : (Call.change r c).effect? f = some effect) : effect.place = .inl r := by
  obtain ⟨t, -, told⟩ := Option.bind_eq_some_iff.mp told
  obtain ⟨e, -, rfl⟩ := Option.map_eq_some_iff.mp told
  rfl

/-- The effects of a call on a node are those of its changes there. -/
theorem effectsOf_node (f : Forest) (r : NodeRef) (what : Call) :
    (f.effectsOf what).filter (·.place = .inl r)
      = (what.changesOn r).filterMap fun c => (Call.change r c).effect? f := by
  cases what with
  | change s c =>
      have effects : f.effectsOf (.change s c)
          = c.singles.filterMap fun part => (Call.change s part).effect? f := List.filterMap_map
      have place (effect : Effect) (mem : effect ∈ f.effectsOf (.change s c)) :
          effect.place = .inl s := by
        rw [effects] at mem
        obtain ⟨part, -, told⟩ := List.mem_filterMap.mp mem
        exact place_of_change told
      by_cases here : s = r
      · subst here
        rw [Call.changesOn, if_pos rfl, ← effects, List.filter_eq_self]
        exact fun effect mem => decide_eq_true (place effect mem)
      · rw [Call.changesOn, if_neg here, List.filterMap_nil, List.filter_eq_nil_iff]
        intro effect mem there
        exact here (Sum.inl.inj ((place effect mem).symm.trans (of_decide_eq_true there)))
  | _ => rfl

/-- The effects of a call in a tree are the links that it makes there. -/
theorem effectsOf_tree (f : Forest) (i : TreeId) (what : Call) :
    (f.effectsOf what).filter (·.place = .inr i)
      = (what.linksIn f i).map fun link => .link link.1 link.2 := by
  have alone (r parent : NodeRef) : [Effect.link r parent].filter (·.place = .inr i)
      = (if r.tree = i then [(r, parent)] else []).map fun link => .link link.1 link.2 := by
    by_cases here : r.tree = i <;> simp [Effect.place, here]
  cases what with
  | change s c =>
      refine List.filter_eq_nil_iff.mpr fun effect mem there => ?_
      obtain ⟨part, single, told⟩ := List.mem_filterMap.mp mem
      obtain ⟨c', -, rfl⟩ := List.mem_map.mp single
      exact absurd ((place_of_change told).symm.trans (of_decide_eq_true there)) nofun
  | attach r => exact alone r (f.reference r)
  | attachTo r parent => exact alone r parent
  | _ => rfl

/-- Calls that agree have the same effects in each place. -/
theorem Agree.effects (agree : f.Agree calls calls') (place : NodeRef ⊕ TreeId) :
    (calls.flatMap f.effectsOf).filter (·.place = place)
      = (calls'.flatMap f.effectsOf).filter (·.place = place) := by
  cases place with
  | inl r =>
      have told (calls : List Call) : (calls.flatMap f.effectsOf).filter (·.place = .inl r)
          = (calls.flatMap (Call.changesOn r)).filterMap fun c => (Call.change r c).effect? f := by
        rw [List.filter_flatMap, List.filterMap_flatMap]
        exact congrArg (calls.flatMap ·) (funext (f.effectsOf_node r))
      rw [told, told, agree.changes]
  | inr i =>
      have told (calls : List Call) : (calls.flatMap f.effectsOf).filter (·.place = .inr i)
          = (calls.flatMap (Call.linksIn f i)).map fun link => .link link.1 link.2 := by
        rw [List.filter_flatMap, List.map_flatMap]
        exact congrArg (calls.flatMap ·) (funext (f.effectsOf_tree i))
      rw [told, told, agree.links]

/-- **Calls that agree make the same forest.** -/
theorem Sound.run_agree (sound : f.Sound) (enclosed : f.Enclosed) (settles : f.Settles calls)
    (settles' : f.Settles calls') (agree : f.Agree calls calls') :
    f.run (calls.map .call) = f.run (calls'.map .call) := by
  have told {calls : List Call} (settles : f.Settles calls) :
      f.run (calls.map .call) = (calls.flatMap f.effectsOf).foldl take f := by
    rw [sound.run_effects enclosed settles.makesNone settles.there settles.accepted,
      List.filterMap_flatMap]
    rfl
  rw [told settles, told settles']
  exact foldl_eq_of_filter_eq take_comm agree.effects f

/-- **The order of independent calls does not matter.** In a forest that callers can make, take two
sequences of calls that make no nodes any more and all succeed. When they make the same single changes on
each node, and attach the same joins in each tree, both in the same order, then every node has the same
statement after both of them, or fails with the same error. -/
theorem render_interleaved (reachable : f.Reachable) (settles : f.Settles calls)
    (settles' : f.Settles calls') (agree : f.Agree calls calls') (d : Sql.Dialect) (r : NodeRef) :
    (f.run (calls.map .call)).render d r = (f.run (calls'.map .call)).render d r := by
  rw [reachable.sound.run_agree reachable.enclosed settles settles' agree]

/-- An order, a customer who is joined to it, and a query about the items of the order. -/
def begun : List Action :=
  [.call (.root {} ⟨"order", "Order", "orders"⟩ (some "o") {}),
    .call (.join ⟨0, 0⟩ ⟨"customer", "Customer", "customers"⟩ .inner (some "c")),
    .call (.subQuery ⟨0, 0⟩ ⟨"item", "Item", "items"⟩ (some "i"))]

/-- The join is conditioned before it is attached, and the query is nested before it is completed. -/
def nestedFirst : List Call :=
  [.change ⟨0, 1⟩ (.onWith (.column "customer_id") (.column "id")), .attach ⟨0, 1⟩,
    .change ⟨0, 0⟩ (.select (.column "id") none), .change ⟨0, 0⟩ (.inQuery (.column "id") ⟨1, 0⟩ false),
    .change ⟨1, 0⟩ (.select (.column "order_id") none),
    .change ⟨1, 0⟩ (.compare (.column "price") .gt (.int 5))]

/-- The join is attached before it is conditioned, and the query is completed before it is nested. -/
def completedFirst : List Call :=
  [.change ⟨1, 0⟩ (.select (.column "order_id") none), .attachTo ⟨0, 1⟩ ⟨0, 0⟩,
    .change ⟨0, 0⟩ (.select (.column "id") none),
    .change ⟨1, 0⟩ (.compare (.column "price") .gt (.int 5)),
    .change ⟨0, 0⟩ (.inQuery (.column "id") ⟨1, 0⟩ false),
    .change ⟨0, 1⟩ (.onWith (.column "customer_id") (.column "id"))]

theorem render_interleaved_completed : ∃ statement,
    ((empty.run begun).run (nestedFirst.map .call)).render .postgres ⟨0, 0⟩ = .ok statement ∧
    ((empty.run begun).run (completedFirst.map .call)).render .postgres ⟨0, 0⟩ = .ok statement := by
  have reachable : (empty.run begun).Reachable := ⟨begun, by decide, rfl⟩
  have settles : (empty.run begun).Settles nestedFirst := ⟨by decide, by decide, by decide⟩
  have settles' : (empty.run begun).Settles completedFirst := ⟨by decide, by decide, by decide⟩
  have agree : (empty.run begun).Agree nestedFirst completedFirst := by
    constructor
    · intro r
      by_cases root : (⟨0, 0⟩ : NodeRef) = r
      · subst root
        rfl
      · by_cases joined : (⟨0, 1⟩ : NodeRef) = r
        · subst joined
          rfl
        · by_cases query : (⟨1, 0⟩ : NodeRef) = r
          · subst query
            rfl
          · simp [nestedFirst, completedFirst, Call.changesOn, root, joined, query]
    · exact fun i => rfl
  obtain ⟨statement, made⟩ : ∃ statement, ((empty.run begun).run (nestedFirst.map .call)).render
      .postgres ⟨0, 0⟩ = .ok statement := ⟨_, rfl⟩
  refine ⟨statement, made, ?_⟩
  rw [← render_interleaved reachable settles settles' agree, made]

end Forest

end QueryForest
