import QueryForest.Proofs.Forest.Failures
import QueryForest.Proofs.Forest.Updates
import QueryForest.Proofs.Tree.Values

set_option autoImplicit false

/-!
# What calls bind

The journal of a run has for each node the calls that have made it what it is: those that succeeded
on it, in their order, and for a branch also those that its node had when it was branched. What a node
binds is what the calls in its journal bind (`Node.Records`), whatever else has been asked of the
forest (`journaled_run`). A call that fails binds nothing, also when it is a call for several columns
that leaves a part of them behind.
-/

namespace QueryForest

open Sql (Select)

/-! ## Bindings -/

/-- What one call binds on its node. -/
structure Binding where
  /-- The query in the place of the table. -/
  rows : Option NodeRef := none
  filters : List Slot := []
  /-- The values that aggregates are compared with. -/
  having : List Value := []
  /-- Whether the results of a join are shown from now on. -/
  fetch : Option Bool := none
  limit : Option UInt64 := none
  offset : Option UInt64 := none

def Change.binding : Change → Binding
  | compare _ _ v => { filters := [.value v] }
  | inList _ values _ => { filters := values.map .value }
  | inQuery _ query _ => { filters := [.query query] }
  | existsQuery query _ => { filters := [.query query] }
  | having _ _ _ v => { having := [v] }
  | fetch enabled => { fetch := some enabled }
  | limit n => { limit := some n }
  | offset n => { offset := some n }
  | _ => {}

def Call.binding : Call → Binding
  | joinQuery _ query _ _ => { rows := some query }
  | change _ what => what.binding
  | _ => {}

def Edit.binding : Edit → Binding
  | filter predicate => { filters := predicate.slots }
  | having h => { having := [h.value] }
  | fetch enabled => { fetch := some enabled }
  | limit n => { limit := some n }
  | offset n => { offset := some n }
  | _ => {}

/-- Every edit that a change asks for binds what the change binds. -/
theorem Change.binding_requests {f : Forest} {t : Tree} {r : NodeRef} {what : Change} {e : Edit}
    (he : .ok e ∈ what.requests f t r) : e.binding = what.binding := by
  cases Change.asks_of_requests he with
  | _ => rfl

/-- A change that binds something asks for one edit. -/
theorem Change.binding_single (what : Change) : what.binding = {} ∨ what.singles = [what] := by
  cases what with
  | selectAll | excludeAll | groupAll | sortAll => exact Or.inl rfl
  | _ => exact Or.inr rfl

/-- What was bound last. -/
def last {α : Type} (part : Binding → Option α) (bindings : List Binding) : Option α :=
  (bindings.filterMap part).getLast?

theorem last_append {α : Type} (part : Binding → Option α) (bindings : List Binding) (b : Binding) :
    last part (bindings ++ [b]) = (part b).or (last part bindings) := by
  unfold last
  rw [List.filterMap_append]
  cases h : part b with
  | none => simp [h]
  | some a => simp [h]

/-! ## Nodes and their bindings -/

/-- Whether a node binds what some calls have bound on it. -/
structure Node.Records (n : Node) (bindings : List Binding) : Prop where
  rows : n.source.query? = last (·.rows) bindings
  filters : n.filters.flatMap Filter.slots = bindings.flatMap (·.filters)
  having : n.having.map (·.value) = bindings.flatMap (·.having)
  fetch : n.fetch = (last (·.fetch) bindings).getD false
  limit : n.limit = last (·.limit) bindings
  offset : n.offset = last (·.offset) bindings

namespace Node.Records

variable {n : Node} {bindings : List Binding}

/-- A call that binds nothing leaves no trace. -/
theorem skip_iff : n.Records (bindings ++ [({} : Binding)]) ↔ n.Records bindings := by
  constructor
  · rintro ⟨rows, filters, having, fetch, limit, offset⟩
    simp only [last_append, Option.none_or, List.flatMap_append, List.flatMap_singleton,
      List.append_nil] at *
    exact ⟨rows, filters, having, fetch, limit, offset⟩
  · rintro ⟨rows, filters, having, fetch, limit, offset⟩
    constructor <;> simpa [last_append]

/-- An edit adds what it binds. -/
theorem edit (h : n.Records bindings) (e : Edit) : (e.apply n).Records (bindings ++ [e.binding]) := by
  have ⟨rows, filters, having, fetch, limit, offset⟩ := h
  cases e with
  | select c aliasName =>
      refine skip_iff.mpr ?_
      show (n.select (.column c aliasName)).Records bindings
      unfold Node.select
      split
      · exact h
      · exact ⟨rows, filters, having, fetch, limit, offset⟩
  | exclude column =>
      refine skip_iff.mpr ?_
      show (n.exclude column).Records bindings
      unfold Node.exclude
      split
      · exact h
      · exact ⟨rows, filters, having, fetch, limit, offset⟩
  | filter | having | fetch | limit | offset =>
      constructor <;>
        simp [Edit.apply, Node.filter, Node.addHaving, Edit.binding, last_append, rows, filters,
          having, fetch, limit, offset]
  | _ => exact skip_iff.mpr ⟨rows, filters, having, fetch, limit, offset⟩

/-- How a node is linked has no effect on what it binds. -/
theorem setParent (h : n.Records bindings) (parent : NodeId) :
    (Tree.setParent parent n).Records bindings :=
  ⟨h.rows, h.filters, h.having, h.fetch, h.limit, h.offset⟩

theorem branch (h : n.Records bindings) : n.branch.Records bindings :=
  ⟨h.rows, h.filters, h.having, h.fetch, h.limit, h.offset⟩

end Node.Records

/-! ## The journal of a run -/

/-- For each node, the calls that have made it what it is. -/
abbrev Journal := NodeRef → List Call

/-- What the calls of a node bind. -/
def Journal.bindings (journal : Journal) (r : NodeRef) : List Binding := (journal r).map Call.binding

section Told

variable (journal : Journal) (r : NodeRef)

/-- The query in the place of the table of a node. -/
def Journal.rows : Option NodeRef := last (·.rows) (journal.bindings r)

/-- What the filters of a node bind, in the order of the calls. -/
def Journal.filters : List Slot := (journal.bindings r).flatMap (·.filters)

/-- The values that aggregates are compared with, in the order of the calls. -/
def Journal.having : List Value := (journal.bindings r).flatMap (·.having)

/-- Whether a join is fetched. -/
def Journal.fetched : Bool := (last (·.fetch) (journal.bindings r)).getD false

def Journal.limit : Option UInt64 := last (·.limit) (journal.bindings r)

def Journal.offset : Option UInt64 := last (·.offset) (journal.bindings r)

end Told

/-- The calls of a node after one more of them: a branch begins with the calls of its node. -/
def Journal.entry (journal : Journal) (s : NodeRef) : Call → List Call
  | .branch r => journal r
  | what => journal s ++ [what]

namespace Forest

/-- The journal after an action. Only calls that succeed are noted. -/
def noted (f : Forest) (journal : Journal) : Action → Journal
  | .call what =>
    match what.perform f with
    | .ok s _ => Function.update journal s (journal.entry s what)
    | .error _ _ => journal
  | _ => journal

/-- The journal after some actions. -/
def journal (f : Forest) (before : Journal) : List Action → Journal
  | [] => before
  | a :: rest => (f.after a).journal (f.noted before a) rest

/-- The journal of a whole run. -/
def journalOf (actions : List Action) : Journal := empty.journal (fun _ => []) actions

variable {f g : Forest} {i : TreeId} {t : Tree} {r s : NodeRef} {journal : Journal}

/-! ## What nodes bind -/

/-- Whether a journal tells what the nodes of a forest bind. -/
structure Journaled (f : Forest) (journal : Journal) : Prop where
  records : ∀ r, (f.node r).Records (journal.bindings r)
  /-- Nothing is noted for nodes that there are not. -/
  none : ∀ r, ¬ f.hasNode r → journal r = []

theorem journaled_empty : Journaled empty fun _ => [] :=
  ⟨fun _ => ⟨rfl, rfl, rfl, rfl, rfl, rfl⟩, fun _ _ => rfl⟩

namespace Journaled

/-- One node changes, and its calls with it. -/
theorem update (h : Journaled f journal) (kept : f.Kept g) (hs : g.hasNode s) {n : Node}
    (nodes : g.node = Function.update f.node s n) {calls : List Call}
    (records : n.Records (calls.map Call.binding)) :
    Journaled g (Function.update journal s calls) := by
  constructor
  · intro r
    rw [nodes, Journal.bindings]
    by_cases here : r = s
    · rw [here, Function.update_self, Function.update_self]
      exact records
    · rw [Function.update_of_ne here, Function.update_of_ne here]
      exact h.records r
  · intro r missing
    have other : r ≠ s := fun same => missing (same ▸ hs)
    rw [Function.update_of_ne other]
    exact h.none r fun there => missing (kept.hasNode there)

/-- An edit that binds nothing needs no note. -/
theorem edit (h : Journaled f journal) (hr : f.hasNode r) {e : Edit} (bare : e.binding = {}) :
    Journaled (f.edit r e) journal := by
  obtain ⟨t, ht, small⟩ := hasNode_iff.mp hr
  have nodes : (f.edit r e).node = Function.update f.node r (e.apply (f.node r)) := by
    rw [edit_eq ht]
    exact node_modify ht small rfl
  have records := (h.records r).edit e
  rw [bare, Node.Records.skip_iff] at records
  have kept : f.Kept (f.edit r e) := .edit ht e
  have updated := h.update kept (kept.hasNode hr) nodes records
  rwa [Function.update_eq_self] at updated

theorem editAll (h : Journaled f journal) (hr : f.hasNode r)
    {requests : List (Except QueryError Edit)} (bare : ∀ e, .ok e ∈ requests → e.binding = {}) :
    ∃ g, Journaled g journal ∧ f.Kept g ∧
      (f.editAll r requests = .ok () g ∨ ∃ e, f.editAll r requests = .error e g) := by
  induction requests generalizing f with
  | nil => exact ⟨f, h, .refl f, Or.inl rfl⟩
  | cons request rest ih =>
      cases request with
      | error e => exact ⟨f, h, .refl f, Or.inr ⟨e, rfl⟩⟩
      | ok e =>
          obtain ⟨t, ht⟩ := tree?_of_hasNode hr
          have kept : f.Kept (f.edit r e) := .edit ht e
          have first := h.edit hr (bare e List.mem_cons_self)
          obtain ⟨g, journaled, keptThen, done⟩ := ih first (kept.hasNode hr) fun e' he' =>
            bare e' (List.mem_cons_of_mem _ he')
          exact ⟨g, journaled, kept.trans keptThen, done⟩

variable {what : Call}

theorem failed {e : QueryError} (stopped : what.perform f = .error e g) (h : Journaled g journal) :
    Journaled (f.after (.call what)) (f.noted journal (.call what)) := by
  have noted : f.noted journal (.call what) = journal := by simp [Forest.noted, stopped]
  rw [after_error stopped, noted]
  exact h

theorem succeeded (done : what.perform f = .ok s g)
    (h : Journaled g (Function.update journal s (journal.entry s what))) :
    Journaled (f.after (.call what)) (f.noted journal (.call what)) := by
  have noted : f.noted journal (.call what)
      = Function.update journal s (journal.entry s what) := by simp [Forest.noted, done]
  rw [after_ok done, noted]
  exact h

theorem made (h : Journaled f journal) (done : what.perform f = .ok s g) (kept : f.Kept g)
    (hs : g.hasNode s) {n : Node} (nodes : g.node = Function.update f.node s n)
    (records : n.Records ((journal.entry s what).map Call.binding)) :
    Journaled (f.after (.call what)) (f.noted journal (.call what)) :=
  succeeded done (h.update kept hs nodes records)

/-- A new tree has a root on which nothing is bound. -/
theorem begun (h : Journaled f journal) {mappings : Registry} {entity : Entity}
    {explicit : Option String} {reserved : List String} {result : ResultSettings}
    {outer : Option NodeRef} (plain : journal.entry ⟨f.trees.length, 0⟩ what
      = journal ⟨f.trees.length, 0⟩ ++ [what]) (bare : what.binding = {})
    (done : what.perform f = .ok ⟨f.trees.length, 0⟩
      (f.addTree (Tree.ofRoot mappings entity explicit reserved result outer)).2) :
    Journaled (f.after (.call what)) (f.noted journal (.call what)) := by
  have kept := Kept.addTree f (Tree.ofRoot mappings entity explicit reserved result outer)
  have missing : ¬ f.hasNode ⟨f.trees.length, 0⟩ := fun there => Nat.lt_irrefl _ (hasNode_lt there)
  refine h.made done kept ?_ (node_addTree f rfl) ?_
  · exact hasNode_iff.mpr
      ⟨Tree.ofRoot mappings entity explicit reserved result outer, by rw [tree?_addTree, if_pos rfl],
        Nat.one_pos⟩
  · rw [plain, h.none _ missing]
    show Node.Records _ [what.binding]
    rw [bare]
    exact ⟨rfl, rfl, rfl, rfl, rfl, rfl⟩

/-- A new join binds the query that it takes its rows from, if there is one. -/
theorem joined (h : Journaled f journal) (hr : f.hasNode r) {source : NodeSource}
    {kind : Sql.JoinKind} {explicit : Option String} (plain : ∀ s, journal.entry s what
      = journal s ++ [what]) (binding : what.binding = { rows := source.query? })
    (perform : what.perform f = Build.addJoin r source kind explicit f) :
    Journaled (f.after (.call what)) (f.noted journal (.call what)) := by
  rcases addJoin_outcome hr source kind explicit with ⟨t, aliasName, aliases, ht, -, added⟩ | ⟨e, stopped⟩
  · have missing : ¬ f.hasNode ⟨r.tree, t.nodes.length⟩ :=
      fun there => Nat.lt_irrefl _ (lt_of_hasNode (r := ⟨r.tree, t.nodes.length⟩) ht there)
    have kept : f.Kept (f.setTree r.tree (t.addNode (t.newJoin r.node source kind aliasName) aliases)) :=
      .setTree ht (.addNode _ _ _)
    refine h.made (perform.trans added) kept ?_ (node_addNode ht _ _) ?_
    · refine hasNode_iff.mpr ⟨_, by rw [tree?_setTree ht, if_pos rfl], ?_⟩
      rw [Tree.length_addNode]
      exact Nat.lt_succ_self _
    · rw [plain, h.none _ missing]
      show Node.Records _ [what.binding]
      rw [binding]
      cases source <;> exact ⟨rfl, rfl, rfl, rfl, rfl, rfl⟩
  · exact failed (perform.trans stopped) h

theorem branched (h : Journaled f journal) (hr : f.hasNode r) :
    Journaled (f.after (.call (.branch r))) (f.noted journal (.call (.branch r))) := by
  obtain ⟨t, ht, small⟩ := hasNode_iff.mp hr
  have done : (Call.branch r).perform f = _ := Build.branch_apply ht
  have kept : f.Kept (f.setTree r.tree (t.addBranch r.node).2) := .setTree ht (.addNode _ _ _)
  refine h.made done kept ?_ (node_addNode ht _ _) ?_
  · refine hasNode_iff.mpr ⟨_, by rw [tree?_setTree ht, if_pos rfl], ?_⟩
    show t.nodes.length < (t.addNode (t.node r.node).branch t.aliases).nodes.length
    rw [Tree.length_addNode]
    exact Nat.lt_succ_self _
  · have records := (h.records r).branch
    rwa [node_eq ht] at records

/-- Attaching a join binds nothing. -/
theorem attached (h : Journaled f journal) (hr : f.hasNode r) {parent : NodeRef}
    (hp : f.hasNode parent) (plain : journal.entry r what = journal r ++ [what])
    (bare : what.binding = {}) (perform : what.perform f = (Call.attachTo r parent).perform f) :
    Journaled (f.after (.call what)) (f.noted journal (.call what)) := by
  rcases attachTo_outcome hr hp with ⟨t, ht, attached⟩ | ⟨e, stopped⟩
  · have kept : f.Kept (f.setTree r.tree (t.addLink r.node parent.node)) := .setTree ht (.addLink _ _ _)
    have small : r.node < t.nodes.length := lt_of_hasNode ht hr
    refine h.made (perform.trans attached) kept (kept.hasNode hr) (node_modify ht small rfl) ?_
    rw [plain, List.map_append, List.map_singleton, bare, Node.Records.skip_iff]
    exact (h.records r).setParent parent.node
  · exact failed (perform.trans stopped) h

theorem changed (h : Journaled f journal) (hr : f.hasNode r) {c : Change}
    (hq : ∀ q ∈ c.queries, f.hasNode q) :
    Journaled (f.after (.call (.change r c))) (f.noted journal (.call (.change r c))) := by
  obtain ⟨t, ht, small⟩ := hasNode_iff.mp hr
  have perform := c.perform_eq ht hq
  rcases c.binding_single with bare | single
  · -- None of the edits binds anything, so that it does not matter how many of them are made.
    obtain ⟨g, journaled, kept, done | ⟨e, stopped⟩⟩ := h.editAll hr fun e he =>
      (Change.binding_requests he).trans bare
    · rw [← perform] at done
      have records : (g.node r).Records ((journal r ++ [Call.change r c]).map Call.binding) := by
        rw [List.map_append, List.map_singleton, Call.binding, bare, Node.Records.skip_iff]
        exact journaled.records r
      have same : g.node = Function.update g.node r (g.node r) := (Function.update_eq_self _ _).symm
      exact succeeded (Build.then_ok r done)
        (journaled.update (.refl g) (kept.hasNode hr) same records)
    · rw [← perform] at stopped
      exact failed (Build.then_error r stopped) journaled
  · obtain ⟨request, asked⟩ := Change.requests_single single f t r
    rw [asked] at perform
    cases request with
    | error e => exact failed (Build.then_error r perform) h
    | ok e =>
        have binds : e.binding = c.binding :=
          Change.binding_requests (f := f) (t := t) (r := r) (asked ▸ List.mem_cons_self)
        have kept : f.Kept (f.edit r e) := .edit ht e
        refine h.made (Build.then_ok r perform) kept (kept.hasNode hr) (n := e.apply (f.node r)) ?_ ?_
        · rw [edit_eq ht]
          exact node_modify ht small rfl
        · have records := (h.records r).edit e
          rw [binds] at records
          show Node.Records _ ((journal r ++ [Call.change r c]).map Call.binding)
          rwa [List.map_append]

/-- **A journal goes on telling what nodes bind when an action is noted in it.** -/
theorem after (h : Journaled f journal) (sound : f.Sound) (a : Action)
    (there : ∀ r ∈ a.nodes, f.hasNode r) : Journaled (f.after a) (f.noted journal a) := by
  cases a with
  | hold name r => exact ⟨h.records, h.none⟩
  | release name => exact ⟨h.records, h.none⟩
  | call what =>
      cases what with
      | root mappings entity explicit result => exact h.begun rfl rfl rfl
      | subQuery outer entity explicit =>
          obtain ⟨t, ht⟩ := tree?_of_hasNode (there outer List.mem_cons_self)
          exact h.begun rfl rfl (Build.subQuery_apply ht entity explicit)
      | branch r => exact h.branched (there r List.mem_cons_self)
      | join r entity kind explicit =>
          exact h.joined (there r List.mem_cons_self) (fun _ => rfl) rfl rfl
      | joinQuery r query kind explicit =>
          have perform : (Call.joinQuery r query kind explicit).perform f = _ :=
            Build.joinQuery_apply (there query (List.mem_cons_of_mem _ List.mem_cons_self)) kind explicit
          split at perform
          · exact failed perform h
          · exact h.joined (there r List.mem_cons_self) (fun _ => rfl) rfl perform
      | attach r =>
          have hr := there r List.mem_cons_self
          exact h.attached hr (sound.hasNode_reference hr) rfl rfl (perform_attach hr)
      | attachTo r parent =>
          exact h.attached (there r List.mem_cons_self)
            (there parent (List.mem_cons_of_mem _ List.mem_cons_self)) rfl rfl rfl
      | change r c =>
          exact h.changed (there r List.mem_cons_self) fun q hq => there q (List.mem_cons_of_mem _ hq)

/-- **In a whole run every node binds what the calls in its journal bind.** -/
theorem run (h : Journaled f journal) (sound : f.Sound) {actions : List Action}
    (admitted : f.admits actions) : Journaled (f.run actions) (f.journal journal actions) := by
  induction actions generalizing f journal with
  | nil => exact h
  | cons a rest ih =>
      obtain ⟨there, admitted⟩ := admits_cons.mp admitted
      exact ih (h.after sound a there) ((sound.after_steps a there).sound sound) admitted

end Journaled

end Forest

end QueryForest
