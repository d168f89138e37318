import QueryForest.Proofs.Forest.Requests
import QueryForest.Proofs.Forest.Steps
import QueryForest.Proofs.Tree.InPlace

set_option autoImplicit false

/-!
# Runs as steps

`Sound.after_steps`: every action of a caller is done in steps, also a call that fails, and the
joins that the steps attach are those that the action attaches. By induction this holds of runs
(`Sound.run_steps`), and every forest that callers can make is sound (`Reachable.sound`).
-/

namespace QueryForest

/-! ## Calls as steps of trees -/

namespace Build

variable {f : Forest} {t : Tree} {r : NodeRef}

theorem branch_apply (ht : f.tree? r.tree = some t) :
    branch r f = .ok ⟨r.tree, t.nodes.length⟩ (f.setTree r.tree (t.addBranch r.node).2) := by
  unfold branch
  rw [bind_apply, tree_apply ht]
  rfl

theorem subQuery_apply (ht : f.tree? r.tree = some t) (entity : Entity) (explicit : Option String) :
    subQuery r entity explicit f
      = .ok ⟨f.trees.length, 0⟩ (f.addTree (Tree.ofRoot t.mappings entity explicit t.aliases.names
          (t.node r.node).result (some r))).2 := by
  unfold subQuery
  rw [bind_apply, tree_apply ht]
  rfl

/-- A join is added to the tree, or the forest stays as it is. -/
theorem addJoin_apply (ht : f.tree? r.tree = some t) (source : NodeSource) (kind : Sql.JoinKind)
    (explicit : Option String) :
    addJoin r source kind explicit f
      = match t.addJoin r.node source kind explicit with
        | .ok (id, t') => .ok ⟨r.tree, id⟩ (f.setTree r.tree t')
        | .error e => .error e f := by
  unfold addJoin
  rw [bind_apply, write_apply ht, Tree.addingJoin_eq]
  cases t.addJoin r.node source kind explicit with
  | ok made => rfl
  | error e => exact congrArg (EStateM.Result.error e) (Forest.setTree_self ht)

theorem joinQuery_apply {query : NodeRef} (hq : f.hasNode query) (kind : Sql.JoinKind)
    (explicit : Option String) :
    joinQuery r query kind explicit f
      = if f.contains query.tree r.tree then .error (.cycle (f.node query).aliasName) f
        else addJoin r (.query query (f.node query).entity) kind explicit f := by
  obtain ⟨u, hu⟩ := Forest.tree?_of_hasNode hq
  have same : f.node query = u.node query.node := Forest.node_eq hu
  unfold joinQuery
  rw [bind_apply, nest_apply hu, ofExcept_apply]
  by_cases nested : f.contains query.tree r.tree
  · simp only [Forest.checkNest, nested, if_true]
  · simp only [Forest.checkNest, nested, if_false, Bool.false_eq_true]
    rw [bind_apply, node_apply hu, same]

/-- A join is attached to a parent in its own tree, or the forest stays as it is. -/
theorem attachTo_apply {parent : NodeRef} (ht : f.tree? r.tree = some t)
    (hp : f.hasNode parent) :
    attachTo r parent f
      = if r.tree ≠ parent.tree then .error (.foreignNode (f.node parent).aliasName) f
        else match t.attach r.node parent.node with
          | .ok t' => .ok () (f.setTree r.tree t')
          | .error e => .error e f := by
  obtain ⟨u, hu⟩ := Forest.tree?_of_hasNode hp
  have same : f.node parent = u.node parent.node := Forest.node_eq hu
  unfold attachTo
  split
  · rw [bind_apply, node_apply hu, same]
    rfl
  · show write r (Tree.attaching r.node parent.node) f = _
    rw [write_apply ht, Tree.attaching_eq]
    cases t.attach r.node parent.node with
    | ok t' => rfl
    | error e => exact congrArg (EStateM.Result.error e) (Forest.setTree_self ht)

theorem attach_apply (ht : f.tree? r.tree = some t) :
    attach r f = attachTo r (f.reference r) f := by
  unfold attach
  rw [bind_apply, reference_apply ht]

theorem then_ok {x : Build Unit} {g : Forest} (r : NodeRef) (h : x f = .ok () g) :
    (x >>= fun _ => pure r) f = .ok r g := by
  rw [bind_apply, h]
  rfl

theorem then_error {x : Build Unit} {g : Forest} {e : QueryError} (r : NodeRef)
    (h : x f = .error e g) : (x >>= fun _ => pure r) f = .error e g := by
  rw [bind_apply, h]

end Build

theorem Forest.checkNest_ok {f : Forest} {host query : NodeRef}
    (h : f.checkNest host query = .ok ()) : f.contains query.tree host.tree = false := by
  unfold checkNest at h
  split at h
  · exact absurd h (by simp)
  · next apart => exact Bool.eq_false_iff.mpr apart

/-- Only a request of its own nests a query, after the check that the query can be nested. -/
theorem Change.requests_nestable {f : Forest} {t : Tree} {r : NodeRef} {what : Change}
    (hq : ∀ q ∈ what.queries, f.hasNode q) {e : Edit} (he : .ok e ∈ what.requests f t r)
    {q : NodeRef} (nests : e.query? = some q) :
    f.Nestable r.tree q ∧ what.requests f t r = [.ok e] := by
  -- All other changes ask for edits without a query.
  cases Change.asks_of_requests he with
  | @inQuery target query negated c found apart =>
      obtain rfl : query = q := Option.some.inj nests
      exact ⟨⟨hq query (List.mem_singleton_self query), Forest.checkNest_ok apart⟩,
        congrArg ([·]) (List.mem_singleton.mp he).symm⟩
  | @existsQuery query negated apart =>
      obtain rfl : query = q := Option.some.inj nests
      exact ⟨⟨hq query (List.mem_singleton_self query), Forest.checkNest_ok apart⟩,
        congrArg ([·]) (List.mem_singleton.mp he).symm⟩
  | _ => exact absurd nests nofun

namespace Forest

variable {f g : Forest} {t : Tree} {r : NodeRef} {what : Call} {e : QueryError}

theorem after_ok (h : what.perform f = .ok r g) : f.after (.call what) = g := by
  simp [after, h]

theorem after_error (h : what.perform f = .error e g) : f.after (.call what) = g := by
  simp [after, h]

/-- A call that attaches nothing takes one step, or it fails without changing anything. -/
theorem quiet_steps (h : (∃ r g, what.perform f = .ok r g ∧ f.Step none g) ∨
    ∃ e, what.perform f = .error e f) : Steps f [] (f.after (.call what)) := by
  rcases h with ⟨r, g, made, step⟩ | ⟨e, failed⟩
  · rw [after_ok made]
    exact step.steps
  · rw [after_error failed]
    exact Steps.refl f

/-- Edits up to the first error are done in steps, as long as a query is only nested by an edit
that stands alone. -/
theorem editAll_steps (ht : f.tree? r.tree = some t) (requests : List (Except QueryError Edit))
    (nestable : ∀ e, .ok e ∈ requests → ∀ q, e.query? = some q →
      f.Nestable r.tree q ∧ requests = [.ok e]) :
    ∃ g, Steps f [] g ∧ (f.editAll r requests = .ok () g ∨ ∃ e, f.editAll r requests = .error e g) := by
  induction requests generalizing f t with
  | nil => exact ⟨f, Steps.refl f, Or.inl rfl⟩
  | cons request rest ih =>
      cases request with
      | error e => exact ⟨f, Steps.refl f, Or.inr ⟨e, rfl⟩⟩
      | ok e =>
          have step : Step f none (f.edit r e) :=
            Step.edit ht fun q hq => (nestable e List.mem_cons_self q hq).1
          -- An edit that nests a query has no others behind it, so that nothing is asked for of them.
          obtain ⟨g, steps, done⟩ := ih (tree?_edit ht e) fun e' he' q hq => by
            have alone := (nestable e' (List.mem_cons_of_mem _ he') q hq).2
            rw [(List.cons.inj alone).2] at he'
            exact absurd he' List.not_mem_nil
          exact ⟨g, Steps.head step steps, done⟩

theorem change_steps (ht : f.tree? r.tree = some t) (what : Change)
    (hq : ∀ q ∈ what.queries, f.hasNode q) : Steps f [] (f.after (.call (.change r what))) := by
  obtain ⟨g, steps, done⟩ := editAll_steps ht (what.requests f t r) fun e he q nests =>
    Change.requests_nestable hq he nests
  rcases done with done | ⟨e, done⟩
  · rw [← what.perform_eq ht hq] at done
    rwa [@after_ok f g r (.change r what) (Build.then_ok r done)]
  · rw [← what.perform_eq ht hq] at done
    rwa [@after_error f g (.change r what) e (Build.then_error r done)]

/-- A call to add a join adds it, or fails without changing anything. -/
theorem addJoin_cases (hr : f.hasNode r) {source : NodeSource} {kind : Sql.JoinKind}
    {explicit : Option String} (nestable : ∀ q, source.query? = some q → f.Nestable r.tree q) :
    (∃ s g, Build.addJoin r source kind explicit f = .ok s g ∧ f.Step none g) ∨
      ∃ e, Build.addJoin r source kind explicit f = .error e f := by
  obtain ⟨t, ht, small⟩ := hasNode_iff.mp hr
  have perform := Build.addJoin_apply ht source kind explicit
  cases made : t.addJoin r.node source kind explicit with
  | error e =>
      rw [made] at perform
      exact Or.inr ⟨e, perform⟩
  | ok result =>
      rw [made] at perform
      exact Or.inl ⟨_, _, perform, Step.join ht small nestable made⟩

theorem joinQuery_cases {query : NodeRef} (hr : f.hasNode r) (hq : f.hasNode query)
    {kind : Sql.JoinKind} {explicit : Option String} :
    (∃ s g, Build.joinQuery r query kind explicit f = .ok s g ∧ f.Step none g) ∨
      ∃ e, Build.joinQuery r query kind explicit f = .error e f := by
  rw [Build.joinQuery_apply hq]
  split
  · exact Or.inr ⟨_, rfl⟩
  · next apart =>
    refine addJoin_cases hr fun q same => ?_
    obtain rfl : query = q := Option.some.inj same
    exact ⟨hq, Bool.eq_false_iff.mpr apart⟩

/-- A call to attach a join attaches it in its tree, or fails without changing anything. -/
theorem attachTo_cases {parent : NodeRef} (hr : f.hasNode r) (hp : f.hasNode parent) :
    (∃ g, (Call.attachTo r parent).perform f = .ok r g ∧ f.Step (some (r, parent)) g) ∨
      ∃ e, (Call.attachTo r parent).perform f = .error e f := by
  obtain ⟨t, ht⟩ := tree?_of_hasNode hr
  have perform := Build.attachTo_apply ht hp
  by_cases foreign : r.tree = parent.tree
  · rw [if_neg (not_not_intro foreign)] at perform
    obtain ⟨u, hu, small⟩ := hasNode_iff.mp hp
    obtain rfl : t = u := Option.some.inj (ht.symm.trans (foreign ▸ hu))
    cases attached : t.attach r.node parent.node with
    | error e =>
        rw [attached] at perform
        exact Or.inr ⟨e, Build.then_error r perform⟩
    | ok t' =>
        rw [attached] at perform
        have same : (⟨r.tree, parent.node⟩ : NodeRef) = parent := by rw [foreign]
        have step := Step.attach ht small attached
        rw [same] at step
        exact Or.inl ⟨_, Build.then_ok r perform, step⟩
  · rw [if_pos foreign] at perform
    exact Or.inr ⟨_, Build.then_error r perform⟩

/-- What a call to add a join makes: one node and one alias, which is that of the node. -/
theorem addJoin_outcome (hr : f.hasNode r) (source : NodeSource) (kind : Sql.JoinKind)
    (explicit : Option String) :
    (∃ t aliasName aliases, f.tree? r.tree = some t ∧
      t.aliases.allocate source.entityOf.name explicit t.nodes.length = .ok (aliasName, aliases) ∧
      Build.addJoin r source kind explicit f = .ok ⟨r.tree, t.nodes.length⟩
        (f.setTree r.tree (t.addNode (t.newJoin r.node source kind aliasName) aliases))) ∨
    ∃ e, Build.addJoin r source kind explicit f = .error e f := by
  obtain ⟨t, ht⟩ := tree?_of_hasNode hr
  have perform := Build.addJoin_apply ht source kind explicit
  cases made : t.addJoin r.node source kind explicit with
  | error e =>
      rw [made] at perform
      exact Or.inr ⟨e, perform⟩
  | ok result =>
      obtain ⟨id, t'⟩ := result
      rw [made] at perform
      obtain ⟨aliasName, aliases, allocated, rfl, rfl⟩ := Tree.addJoin_allocated made
      exact Or.inl ⟨t, aliasName, aliases, ht, allocated, perform⟩

/-- What a call to attach a join makes: one link. -/
theorem attachTo_outcome {parent : NodeRef} (hr : f.hasNode r) (hp : f.hasNode parent) :
    (∃ t, f.tree? r.tree = some t ∧ (Call.attachTo r parent).perform f
      = .ok r (f.setTree r.tree (t.addLink r.node parent.node))) ∨
    ∃ e, (Call.attachTo r parent).perform f = .error e f := by
  obtain ⟨t, ht⟩ := tree?_of_hasNode hr
  have perform := Build.attachTo_apply ht hp
  split at perform
  · exact Or.inr ⟨_, Build.then_error r perform⟩
  · cases attached : t.attach r.node parent.node with
    | error e =>
        rw [attached] at perform
        exact Or.inr ⟨e, Build.then_error r perform⟩
    | ok t' =>
        rw [attached] at perform
        obtain ⟨-, -, -, rfl⟩ := Tree.attach_ok attached
        exact Or.inl ⟨t, ht, Build.then_ok r perform⟩

theorem attachTo_steps {parent : NodeRef} (hr : f.hasNode r) (hp : f.hasNode parent) :
    Steps f (f.attachment? (.call (.attachTo r parent))).toList
      (f.after (.call (.attachTo r parent))) := by
  rcases attachTo_cases hr hp with ⟨g, made, step⟩ | ⟨e, failed⟩
  · have attached : f.attachment? (.call (.attachTo r parent)) = some (r, parent) := by
      simp [attachment?, accepts, made]
    rw [attached, after_ok made]
    exact step.steps
  · have none : f.attachment? (.call (.attachTo r parent)) = none := by
      simp [attachment?, accepts, failed]
    rw [none, after_error failed]
    exact Steps.refl f

theorem perform_attach (hr : f.hasNode r) :
    (Call.attach r).perform f = (Call.attachTo r (f.reference r)).perform f := by
  obtain ⟨t, ht⟩ := tree?_of_hasNode hr
  show (Build.attach r >>= fun _ => pure r) f = (Build.attachTo r (f.reference r) >>= _) f
  rw [Build.bind_apply, Build.bind_apply, Build.attach_apply ht]

/-- Actions only name nodes that there are when the first one does, and the others do behind it. -/
theorem admits_cons {a : Action} {rest : List Action} :
    f.admits (a :: rest) ↔ (∀ r ∈ a.nodes, f.hasNode r) ∧ (f.after a).admits rest := by
  rw [admits, Bool.and_eq_true, List.all_eq_true]

namespace Sound

/-- The node that a join was created from is there. -/
theorem hasNode_reference (h : f.Sound) (hr : f.hasNode r) : f.hasNode (f.reference r) := by
  obtain ⟨t, ht, small⟩ := hasNode_iff.mp hr
  have same : f.node r = t.node r.node := node_eq ht
  refine hasNode_iff.mpr ⟨t, ht, ?_⟩
  show ((f.node r).join.map (·.reference)).getD r.node < t.nodes.length
  rw [same]
  cases edge : (t.node r.node).join with
  | none => exact small
  | some edge' => exact (h.tree r.tree t ht).linked.reference_lt r.node edge' edge

theorem attach_steps (h : f.Sound) (hr : f.hasNode r) :
    Steps f (f.attachment? (.call (.attach r))).toList (f.after (.call (.attach r))) := by
  have same := perform_attach hr
  have accepted : f.accepts (.attach r) = f.accepts (.attachTo r (f.reference r)) := by
    simp only [accepts, same]
  have attached : f.attachment? (.call (.attach r))
      = f.attachment? (.call (.attachTo r (f.reference r))) := by
    simp only [attachment?, accepted]
  have left : f.after (.call (.attach r)) = f.after (.call (.attachTo r (f.reference r))) := by
    simp only [after, same]
  rw [attached, left]
  exact attachTo_steps hr (h.hasNode_reference hr)

/-- **Every action is done in steps, which attach the joins that it attaches.** -/
theorem after_steps (h : f.Sound) (a : Action) (there : ∀ r ∈ a.nodes, f.hasNode r) :
    Steps f (f.attachment? a).toList (f.after a) := by
  cases a with
  | hold name r => exact (Step.handles f _).steps
  | release name => exact (Step.handles f _).steps
  | call what =>
      cases what with
      | root mappings entity explicit result =>
          have step := Step.root f mappings entity explicit [] result none nofun
          exact quiet_steps (Or.inl ⟨_, _, rfl, step⟩)
      | subQuery outer entity explicit =>
          have enclosing := there outer List.mem_cons_self
          obtain ⟨t, ht⟩ := tree?_of_hasNode enclosing
          have made := Build.subQuery_apply ht entity explicit
          refine quiet_steps (Or.inl ⟨_, _, made, Step.root f _ _ _ _ _ _ fun o same => ?_⟩)
          exact Option.some.inj same ▸ enclosing
      | branch r =>
          obtain ⟨t, ht, small⟩ := hasNode_iff.mp (there r List.mem_cons_self)
          have made := Build.branch_apply ht
          exact quiet_steps (Or.inl ⟨_, _, made, Step.branch ht small⟩)
      | join r entity kind explicit =>
          exact quiet_steps (addJoin_cases (there r List.mem_cons_self) (by simp [NodeSource.query?]))
      | joinQuery r query kind explicit =>
          exact quiet_steps (joinQuery_cases (there r List.mem_cons_self)
            (there query (List.mem_cons_of_mem _ List.mem_cons_self)))
      | attach r =>
          exact h.attach_steps (there r List.mem_cons_self)
      | attachTo r parent =>
          exact attachTo_steps (there r List.mem_cons_self)
            (there parent (List.mem_cons_of_mem _ List.mem_cons_self))
      | change r what =>
          obtain ⟨t, ht⟩ := tree?_of_hasNode (there r List.mem_cons_self)
          exact change_steps ht what fun q hq => there q (List.mem_cons_of_mem _ hq)

/-- **A run is done in steps, which attach the joins that its actions attach.** -/
theorem run_steps (h : f.Sound) (actions : List Action) (admitted : f.admits actions) :
    Steps f (f.attachments actions) (f.run actions) := by
  induction actions generalizing f with
  | nil => exact Steps.refl f
  | cons a rest ih =>
      obtain ⟨there, admitted⟩ := admits_cons.mp admitted
      have first := h.after_steps a there
      exact first.trans (ih (first.sound h) admitted)

end Sound

/-- Every forest that callers can make is sound. -/
theorem Reachable.sound (h : f.Reachable) : f.Sound := by
  obtain ⟨actions, admitted, rfl⟩ := h
  exact (sound_empty.run_steps actions admitted).sound sound_empty

/-! ## Longer runs -/

theorem run_append (f : Forest) (actions rest : List Action) :
    f.run (actions ++ rest) = (f.run actions).run rest :=
  List.foldl_append

theorem admits_append (f : Forest) (actions rest : List Action) :
    f.admits (actions ++ rest) = (f.admits actions && (f.run actions).admits rest) := by
  induction actions generalizing f with
  | nil => rfl
  | cons a actions ih =>
      show (a.nodes.all f.hasNode && (f.after a).admits (actions ++ rest)) = _
      rw [ih, ← Bool.and_assoc]
      rfl

/-- One more action on nodes that there are. -/
theorem Reachable.after (h : f.Reachable) (a : Action) (there : ∀ r ∈ a.nodes, f.hasNode r) :
    (f.after a).Reachable := by
  obtain ⟨actions, admitted, rfl⟩ := h
  refine ⟨actions ++ [a], ?_, run_append empty actions [a]⟩
  rw [admits_append, admitted, Bool.true_and]
  exact Bool.and_eq_true_iff.mpr ⟨List.all_eq_true.mpr there, rfl⟩

end Forest

end QueryForest
