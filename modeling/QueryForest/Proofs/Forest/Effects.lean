import QueryForest.Proofs.Forest.Frame
import QueryForest.Proofs.Tree.Entries

set_option autoImplicit false

/-!
# What successful calls come to

A successful call that makes no node comes to its single calls, one after the other (`accepts_singles`),
and each of these to one `Effect`: an edit of a node or a new link between two of them. Which effect it is
depends on what the nodes find around them, and that never changes. So it can be told from the forest in
which the nodes were there for the first time, whatever is done until the call is made
(`Sound.run_effects`).
-/

namespace QueryForest

/-! ## Calls and the single calls that they are made of -/

namespace Forest

variable {f g : Forest} {r : NodeRef} {calls rest : List Call}

theorem accepts_iff {what : Call} : f.accepts what ↔ ∃ s g, what.perform f = .ok s g := by
  unfold accepts
  cases what.perform f <;> simp

theorem acceptsAll_append : f.acceptsAll (calls ++ rest)
    ↔ f.acceptsAll calls ∧ (f.run (calls.map .call)).acceptsAll rest := by
  induction calls generalizing f with
  | nil => exact (and_iff_right rfl).symm
  | cons what calls ih =>
      rw [List.cons_append, acceptsAll, acceptsAll, Bool.and_eq_true, Bool.and_eq_true, ih, and_assoc]
      rfl

/-- Changes that succeed as one call succeed as calls of their own, and the other way round. -/
theorem forM_ok_iff {changes : List Change} : changes.forM (Change.perform r) f = .ok () g
    ↔ f.acceptsAll (changes.map (.change r)) ∧ f.run (changesOf r changes) = g := by
  induction changes generalizing f with
  | nil => exact ⟨fun h => ⟨rfl, (EStateM.Result.ok.inj h).2⟩, fun h => congrArg _ h.2⟩
  | cons c rest ih =>
      rw [Build.forM_cons_apply]
      show _ ↔ (f.accepts (.change r c) && (f.after (.call (.change r c))).acceptsAll _) = true
        ∧ (f.after (.call (.change r c))).run (changesOf r rest) = g
      cases made : c.perform r f with
      | ok _ f' =>
          have done : (Call.change r c).perform f = .ok r f' := Build.then_ok r made
          rw [after_ok done, accepts_iff.mpr ⟨r, f', done⟩, Bool.true_and]
          exact ih
      | error e f' =>
          have failed : (Call.change r c).perform f = .error e f' := Build.then_error r made
          simp [accepts, failed]

/-- **A successful call comes to the single calls that it is made of.** -/
theorem accepts_singles {what : Call} (accepted : f.accepts what) :
    f.acceptsAll what.singles ∧ f.run (what.singles.map .call) = f.after (.call what) := by
  cases what with
  | change r c =>
      obtain ⟨s, g, made⟩ := accepts_iff.mp accepted
      obtain ⟨_, performed⟩ : ∃ u, c.perform r f = .ok u g := by
        cases done : c.perform r f with
        | ok u f' =>
            have same := (Build.then_ok r done).symm.trans made
            exact ⟨u, congrArg _ (EStateM.Result.ok.inj same).2⟩
        | error e f' => exact absurd ((Build.then_error r done).symm.trans made) nofun
      rw [c.perform_singles] at performed
      obtain ⟨each, reached⟩ := forM_ok_iff.mp performed
      refine ⟨each, ?_⟩
      rw [after_ok made, ← reached, Call.singles, List.map_map]
      rfl
  | _ => exact ⟨Bool.and_eq_true_iff.mpr ⟨accepted, rfl⟩, rfl⟩

theorem acceptsAll_singles (accepted : f.acceptsAll calls) :
    f.acceptsAll (calls.flatMap Call.singles) ∧
      f.run ((calls.flatMap Call.singles).map .call) = f.run (calls.map .call) := by
  induction calls generalizing f with
  | nil => exact ⟨rfl, rfl⟩
  | cons what calls ih =>
      obtain ⟨first, others⟩ := Bool.and_eq_true_iff.mp accepted
      obtain ⟨each, reached⟩ := accepts_singles first
      obtain ⟨all, done⟩ := ih others
      rw [← reached] at all done
      constructor
      · exact acceptsAll_append.mpr ⟨each, all⟩
      · rw [List.flatMap_cons, List.map_append, run_append, done, reached]
        rfl

/-- Calls may be made one after the other when the nodes that they name are there before the first. -/
theorem Sound.admits_calls (sound : f.Sound) (there : ∀ what ∈ calls, ∀ r ∈ what.nodes, f.hasNode r) :
    f.admits (calls.map .call) := by
  induction calls generalizing f with
  | nil => rfl
  | cons what rest ih =>
      have named := there what List.mem_cons_self
      have steps := sound.after_steps (.call what) named
      exact admits_cons.mpr ⟨named, ih (steps.sound sound) fun c hc r hr =>
        steps.kept.hasNode (there c (List.mem_cons_of_mem _ hc) r hr)⟩

end Forest

/-! ## Changed trees -/

namespace Tree

theorem modify_id (t : Tree) (v : NodeId) : t.modify v id = t :=
  congrArg (Tree.mk · t.aliases t.links t.mappings) (List.modify_id v t.nodes)

theorem modify_modify (t : Tree) (v : NodeId) (first second : Node → Node) :
    (t.modify v first).modify v second = t.modify v (second ∘ first) :=
  congrArg (Tree.mk · t.aliases t.links t.mappings) (List.modify_modify_eq first second v t.nodes)

theorem modify_comm {v w : NodeId} (apart : v ≠ w) (t : Tree) (first second : Node → Node) :
    (t.modify v first).modify w second = (t.modify w second).modify v first :=
  congrArg (Tree.mk · t.aliases t.links t.mappings) (List.modify_modify_ne first second t.nodes apart)

end Tree

namespace Forest

variable {f : Forest}

/-- Changes the tree at a place. -/
def modifyTree (f : Forest) (i : TreeId) (change : Tree → Tree) : Forest :=
  { f with trees := f.trees.modify i change }

variable {i j : TreeId} {t : Tree}

theorem tree?_modifyTree (change : Tree → Tree) :
    (f.modifyTree i change).tree? j = if j = i then (f.tree? i).map change else f.tree? j := by
  unfold modifyTree tree?
  rw [List.getElem?_modify]
  by_cases here : j = i
  · simp [here]
  · simp [here, Ne.symm here]

theorem modifyTree_modifyTree (first second : Tree → Tree) :
    (f.modifyTree i first).modifyTree i second = f.modifyTree i (second ∘ first) :=
  congrArg (Forest.mk · f.handles) (List.modify_modify_eq first second i f.trees)

theorem modifyTree_comm (apart : i ≠ j) (first second : Tree → Tree) :
    (f.modifyTree i first).modifyTree j second = (f.modifyTree j second).modifyTree i first :=
  congrArg (Forest.mk · f.handles) (List.modify_modify_ne first second f.trees apart)

theorem modifyTree_eq (ht : f.tree? i = some t) (change : Tree → Tree) :
    f.modifyTree i change = f.setTree i (change t) := by
  unfold modifyTree setTree
  rw [List.modify_eq_set_getElem?]
  simp [show f.trees[i]? = some t from ht]

theorem edit_eq_modifyTree (r : NodeRef) (e : Edit) :
    f.edit r e = f.modifyTree r.tree (·.modify r.node e.apply) := by
  cases ht : f.tree? r.tree with
  | some t => rw [edit_eq ht, modifyTree_eq ht]
  | none =>
      have missing : f.trees.length ≤ r.tree := List.getElem?_eq_none_iff.mp ht
      rw [edit, ht, modifyTree, List.modify_eq_self missing]

end Forest

/-! ## Edits of changes -/

/-- The edit that adds an entry to its clause. -/
def Entry.edit : Entry → Edit
  | filter predicate => .filter predicate
  | on condition => .condition condition
  | group column => .group column
  | having h => .having h
  | order key => .sort key

/-- The edit that a single change comes to, when everything in it is found. -/
def Change.edit? (around : Surroundings) : Change → Option Edit
  | select target aliasName => (around.column target).toOption.map (.select · aliasName)
  | exclude target => (around.column target).toOption.map fun c => .exclude c.column
  | aggregate function target options =>
    (lookOption around.column target).toOption.map fun c =>
      .aggregate (Build.makeAggregate function c options)
  | fetch enabled => some (.fetch enabled)
  | resultType name => some (.resultType name)
  | mapType name => some (.mapType name)
  | mapKey target => (around.column target).toOption.map .mapKey
  | propertyAsAlias enabled => some (.propertyAsAlias enabled)
  | limit n => some (.limit n)
  | offset n => some (.offset n)
  | what => (what.added? around).map Entry.edit

/-- A single change comes to the edit that it asks for. -/
theorem Change.Asks.edit? {f : Forest} {t : Tree} {r : NodeRef} {c : Change} {e : Edit}
    (asks : c.Asks f t r e) (ht : f.tree? r.tree = some t) (single : c.singles = [c]) :
    c.edit? (t.surroundings f r.node) = some e := by
  have added := asks.added? ht single
  have look : (t.surroundings f r.node).column = t.column r.node := rfl
  cases asks with
  | select found | exclude found | mapKey found =>
      simp [Change.edit?, look, found, Except.toOption]
  | aggregate found =>
      rw [t.columnOption_eq] at found
      simp [Change.edit?, look, found, Except.toOption]
  | fetch | resultType | mapType | propertyAsAlias | limit | offset => rfl
  -- A call for several columns is not a single change, unless it is for none.
  | @selectAll targets => cases targets <;> simp [Change.singles] at single
  | @excludeAll targets => cases targets <;> simp [Change.singles] at single
  | @groupAll targets => cases targets <;> simp [Change.singles] at single
  | @sortAll targets => cases targets <;> simp [Change.singles] at single
  | _ => exact congrArg (Option.map Entry.edit) added

/-! ## Effects -/

/-- What a successful single call that makes no node does to a forest. -/
inductive Effect where
  | edit (node : NodeRef) (e : Edit)
  /-- Attaches a join to a parent in its tree. -/
  | link (join parent : NodeRef)

/-- Whether a call makes a node. -/
def Call.makesNode : Call → Bool
  | root _ _ _ _ | subQuery _ _ _ | branch _ | join _ _ _ _ | joinQuery _ _ _ _ => true
  | attach _ | attachTo _ _ | change _ _ => false

/-- The effect of a single call, told from a forest in which the nodes that it names are there. -/
def Call.effect? (f : Forest) : Call → Option Effect
  | .change r what =>
    (f.tree? r.tree).bind fun t => (what.edit? (t.surroundings f r.node)).map (.edit r)
  | .attach r => some (.link r (f.reference r))
  | .attachTo r parent => some (.link r parent)
  | _ => none

namespace Forest

variable {f g : Forest} {log : List (NodeRef × NodeRef)}

/-- The forest after an effect. -/
def take (f : Forest) : Effect → Forest
  | .edit r e => f.edit r e
  | .link join parent => f.modifyTree join.tree (·.addLink join.node parent.node)

/-- A run never changes which node a join was created from. -/
theorem Steps.reference (steps : Steps f log g) {r : NodeRef} (hr : f.hasNode r) :
    g.reference r = f.reference r := by
  have constant := steps.constant Node.constant_reference hr
  simp only [Forest.reference, constant]

/-- A join that is attached is linked to its parent. -/
theorem after_attachTo {join parent : NodeRef} (hj : f.hasNode join) (hp : f.hasNode parent)
    (accepted : f.accepts (.attachTo join parent)) :
    f.after (.call (.attachTo join parent)) = f.take (.link join parent) := by
  obtain ⟨s, g, made⟩ := accepts_iff.mp accepted
  rcases attachTo_outcome hj hp with ⟨t, ht, linked⟩ | ⟨e, failed⟩
  · rw [after_ok linked, take, modifyTree_eq ht]
  · exact absurd (failed.symm.trans made) nofun

/-- A successful single change makes the edit that was to be expected of it when its nodes were made. -/
theorem Sound.after_change (sound : f.Sound) (enclosed : f.Enclosed) (steps : Steps f log g) {r : NodeRef}
    {c : Change} (alone : c.singles = [c]) (there : ∀ s ∈ (Call.change r c).nodes, f.hasNode s)
    (accepted : g.accepts (.change r c)) :
    ∃ e, (Call.change r c).effect? f = some (.edit r e) ∧
      g.after (.call (.change r c)) = g.edit r e := by
  have kept {s : NodeRef} (hs : s ∈ (Call.change r c).nodes) : g.hasNode s :=
    steps.kept.hasNode (there s hs)
  obtain ⟨t, ht, small⟩ := hasNode_iff.mp (there r List.mem_cons_self)
  obtain ⟨t', ht'⟩ := tree?_of_hasNode (kept List.mem_cons_self)
  -- A single change asks for one edit, and succeeds just when that is not refused.
  obtain ⟨request, asked⟩ := Change.requests_single alone g t' r
  have perform := c.perform_eq ht' fun q hq => kept (List.mem_cons_of_mem _ hq)
  rw [asked] at perform
  cases request with
  | error e =>
      obtain ⟨s, g', made⟩ := accepts_iff.mp accepted
      have failed : (Call.change r c).perform g = .error e g := Build.then_error r perform
      cases failed.symm.trans made
  | ok e =>
      have made : (Call.change r c).perform g = .ok r (g.edit r e) := Build.then_ok r perform
      have asks := Change.asks_of_requests (asked ▸ List.mem_cons_self : .ok e ∈ c.requests g t' r)
      have found := asks.edit? ht' alone
      rw [steps.surroundings sound enclosed ht ht' small] at found
      refine ⟨e, ?_, after_ok made⟩
      simp [Call.effect?, ht, found]

/-- **A successful single call that makes no node has the effect that was to be expected of it when its
nodes were made.** -/
theorem Sound.after_effect (sound : f.Sound) (enclosed : f.Enclosed) (steps : Steps f log g)
    {what : Call} (single : what.singles = [what]) (makesNone : what.makesNode = false)
    (there : ∀ r ∈ what.nodes, f.hasNode r) (accepted : g.accepts what) :
    ∃ effect, what.effect? f = some effect ∧ g.after (.call what) = g.take effect := by
  have kept {r : NodeRef} (hr : f.hasNode r) : g.hasNode r := steps.kept.hasNode hr
  cases what with
  | change r c =>
      have alone : c.singles = [c] := by
        rw [Call.singles, List.map_eq_singleton_iff] at single
        obtain ⟨c', alone, same⟩ := single
        rwa [(Call.change.inj same).2] at alone
      obtain ⟨e, told, done⟩ := sound.after_change enclosed steps alone there accepted
      exact ⟨.edit r e, told, done⟩
  | attach r =>
      have hr := there r List.mem_cons_self
      have same := perform_attach (kept hr)
      rw [steps.reference hr] at same
      have attached : g.accepts (.attachTo r (f.reference r)) := by
        simpa only [accepts, same] using accepted
      refine ⟨.link r (f.reference r), rfl, ?_⟩
      rw [← after_attachTo (kept hr) (kept (sound.hasNode_reference hr)) attached]
      simp only [after, same]
  | attachTo r parent =>
      exact ⟨.link r parent, rfl, after_attachTo (kept (there r List.mem_cons_self))
        (kept (there parent (List.mem_cons_of_mem _ List.mem_cons_self))) accepted⟩
  | _ => cases makesNone

/-- Single calls that make no nodes come to their effects, one after the other. -/
theorem Sound.run_singles (sound : f.Sound) (enclosed : f.Enclosed) (steps : Steps f log g)
    {calls : List Call} (single : ∀ what ∈ calls, what.singles = [what])
    (makesNone : ∀ what ∈ calls, what.makesNode = false)
    (there : ∀ what ∈ calls, ∀ r ∈ what.nodes, f.hasNode r) (accepted : g.acceptsAll calls) :
    g.run (calls.map .call) = (calls.filterMap (Call.effect? f)).foldl take g := by
  -- By induction on the calls. What is found around the nodes is still what it was in `f`.
  induction calls generalizing g log with
  | nil => rfl
  | cons what rest ih =>
      obtain ⟨first, others⟩ := Bool.and_eq_true_iff.mp accepted
      have named := there what List.mem_cons_self
      obtain ⟨effect, told, done⟩ := sound.after_effect enclosed steps (single what List.mem_cons_self)
        (makesNone what List.mem_cons_self) named first
      have next := steps.trans ((steps.sound sound).after_steps (.call what) fun r hr =>
        steps.kept.hasNode (named r hr))
      have rest := ih next (fun c hc => single c (List.mem_cons_of_mem _ hc))
        (fun c hc => makesNone c (List.mem_cons_of_mem _ hc))
        (fun c hc => there c (List.mem_cons_of_mem _ hc)) others
      rw [List.filterMap_cons_some told, List.foldl_cons, ← done, ← rest]
      rfl

end Forest

namespace Call

variable {what c : Call}

/-- A call is made of itself alone, or it is a change and made of the parts of this change. -/
theorem mem_singles (h : c ∈ what.singles) : c = what ∧ what.singles = [what] ∨
    ∃ r whole part, what = .change r whole ∧ c = .change r part ∧ part ∈ whole.singles := by
  cases what with
  | change r whole =>
      obtain ⟨part, mem, rfl⟩ := List.mem_map.mp h
      exact Or.inr ⟨r, whole, part, rfl, rfl, mem⟩
  | _ => exact Or.inl ⟨List.mem_singleton.mp h, rfl⟩

theorem singles_single (h : c ∈ what.singles) : c.singles = [c] := by
  rcases mem_singles h with ⟨rfl, alone⟩ | ⟨r, whole, part, rfl, rfl, mem⟩
  · exact alone
  · rw [singles, Change.singles_single mem]
    rfl

theorem makesNode_singles (h : c ∈ what.singles) : c.makesNode = what.makesNode := by
  rcases mem_singles h with ⟨rfl, -⟩ | ⟨r, whole, part, rfl, rfl, -⟩ <;> rfl

/-- The calls that a call is made of name no other nodes. -/
theorem nodes_singles (h : c ∈ what.singles) {r : NodeRef} (hr : r ∈ c.nodes) : r ∈ what.nodes := by
  rcases mem_singles h with ⟨rfl, -⟩ | ⟨s, whole, part, rfl, rfl, mem⟩
  · exact hr
  · rcases List.mem_cons.mp hr with rfl | query
    · exact List.mem_cons_self
    · exact List.mem_cons_of_mem _ (Change.queries_singles mem query)

end Call

/-- **Successful calls that make no nodes come to the effects of the single calls that they are made
of.** -/
theorem Forest.Sound.run_effects {f : Forest} (sound : f.Sound) (enclosed : f.Enclosed)
    {calls : List Call} (makesNone : ∀ what ∈ calls, what.makesNode = false)
    (there : ∀ what ∈ calls, ∀ r ∈ what.nodes, f.hasNode r) (accepted : f.acceptsAll calls) :
    f.run (calls.map .call)
      = ((calls.flatMap Call.singles).filterMap (Call.effect? f)).foldl take f := by
  obtain ⟨each, reached⟩ := acceptsAll_singles accepted
  rw [← reached]
  refine sound.run_singles enclosed (.refl f) (fun c hc => ?_) (fun c hc => ?_) (fun c hc r hr => ?_) each
  all_goals obtain ⟨what, mem, part⟩ := List.mem_flatMap.mp hc
  · exact Call.singles_single part
  · exact (Call.makesNode_singles part).trans (makesNone what mem)
  · exact there what mem r (Call.nodes_singles part hr)

end QueryForest
