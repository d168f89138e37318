import QueryForest.Proofs.Forest.Failures
import QueryForest.Proofs.Forest.Requests
import QueryForest.Proofs.Forest.Surroundings

set_option autoImplicit false

/-!
# Chronicles

The chronicle of a run has for each node the single changes that were made on it, in their order, and
for a branch also those that its node had when it was branched. Of a call for several columns it has the
changes before the first that fails, since these stay made.

An `Account` is a relation between a node and its changes. When it is true of new nodes and kept by
the edits that changes make (`Account.Faithful`), then the chronicle of a run does so for all nodes
(`Told.run`), no matter in which order the nodes were made, attached, branched and changed.
-/

namespace QueryForest

/-- For each node, the changes that have made it what it is. -/
abbrev Chronicle := NodeRef → List Change

namespace Forest

/-- The changes that are made on a node, out of some that are asked for until one fails. -/
def madeOf (f : Forest) (r : NodeRef) : List Change → List Change
  | [] => []
  | c :: rest =>
    match c.perform r f with
    | .ok _ g => c :: g.madeOf r rest
    | .error _ _ => []

/-- The chronicle after an action. -/
def chronicled (f : Forest) (story : Chronicle) : Action → Chronicle
  | .call (.change r what) => Function.update story r (story r ++ f.madeOf r what.singles)
  | .call (.branch r) =>
    match (Call.branch r).perform f with
    | .ok b _ => Function.update story b (story r)
    | .error _ _ => story
  | _ => story

/-- The chronicle after some actions. -/
def chronicle (f : Forest) (before : Chronicle) : List Action → Chronicle
  | [] => before
  | a :: rest => (f.after a).chronicle (f.chronicled before a) rest

/-- The chronicle of a whole run. -/
def chronicleOf (actions : List Action) : Chronicle := empty.chronicle (fun _ => []) actions

end Forest

/-! ## Accounts -/

/-- Whether nothing has been asked of a node yet. -/
structure Node.IsFresh (n : Node) : Prop where
  bare : n = { source := n.source, aliasName := n.aliasName, result := n.result, join := n.join
               origin := n.origin, outer := n.outer }
  conditions : ∀ edge, n.join = some edge → edge.conditions = []

/-- A relation between a node and its changes, given what the calls on the node look up. -/
abbrev Account := Surroundings → Node → List Change → Prop

/-- Whether an account is true of new nodes, and stays true of nodes that are attached, branched or
edited. -/
structure Account.Faithful (account : Account) : Prop where
  fresh : ∀ around n, n.IsFresh → account around n []
  attach : ∀ {around n changes} (parent : NodeId), account around n changes →
    account around (Tree.setParent parent n) changes
  /-- A branch is no join any more, but finds everything else that its node finds. -/
  branch : ∀ {around n changes} (left : Target → Except QueryError ColumnRef),
    account around n changes → account { around with left } n.branch changes
  edit : ∀ {f t r c e changes}, f.tree? r.tree = some t → Change.Asks f t r c e →
    c.singles = [c] → account (t.surroundings f r.node) (t.node r.node) changes →
    account (t.surroundings f r.node) (e.apply (t.node r.node)) (changes ++ [c])

namespace Forest

variable {f g : Forest} {i : TreeId} {t : Tree} {r s : NodeRef} {story : Chronicle}
  {account : Account} {noted : List Change} {log : List (NodeRef × NodeRef)}

/-- Whether an account is true of all nodes of a forest and their changes in a chronicle. -/
structure Told (account : Account) (f : Forest) (story : Chronicle) : Prop where
  tells : ∀ r t, f.tree? r.tree = some t → r.node < t.nodes.length →
    account (t.surroundings f r.node) (f.node r) (story r)
  /-- Nothing is told of nodes that there are not. -/
  none : ∀ r, ¬ f.hasNode r → story r = []

namespace Told

theorem empty : Told account empty fun _ => [] :=
  ⟨fun r t ht => absurd ht (by simp [Forest.empty, tree?]), fun _ _ => rfl⟩

section Steps

variable (h : Told account f story) (faithful : account.Faithful) (sound : f.Sound)
  (enclosed : f.Enclosed)

include h sound enclosed

/-- One node changes or is added, and its changes with it. All others find what they found. -/
theorem update {n : Node} (steps : Steps f log g) (updated : f.Updated s n g)
    (told : ∀ t, g.tree? s.tree = some t → account (t.surroundings g s.node) n noted) :
    Told account g (Function.update story s noted) := by
  constructor
  case tells =>
    intro r t' ht' small'
    by_cases here : r = s
    · subst here
      rw [Function.update_self, updated.node_self]
      exact told t' ht'
    · rw [Function.update_of_ne here, updated.node_of_ne here]
      have there : g.hasNode r := hasNode_iff.mpr ⟨t', ht', small'⟩
      have old : f.hasNode r := ((updated.hasNode r).mp there).resolve_right here
      obtain ⟨t, ht, small⟩ := hasNode_iff.mp old
      rw [steps.surroundings sound enclosed ht ht' small]
      exact h.tells r t ht small
  case none =>
    intro r missing
    have other : r ≠ s := fun same => missing ((updated.hasNode r).mpr (Or.inr same))
    rw [Function.update_of_ne other]
    exact h.none r fun old => missing ((updated.hasNode r).mpr (Or.inl old))

include faithful

/-- A new node of which nothing has been asked has an empty page. -/
theorem begun {n : Node} (steps : Steps f log g) (updated : f.Updated s n g) (fresh : n.IsFresh)
    (missing : ¬ f.hasNode s) : Told account g story := by
  have told := h.update sound enclosed steps updated fun t _ =>
    faithful.fresh (t.surroundings g s.node) n fresh
  rwa [← h.none s missing, Function.update_eq_self] at told

theorem edit (ht : f.tree? r.tree = some t) (small : r.node < t.nodes.length) {c : Change} {e : Edit}
    (asks : c.Asks f t r e) (single : c.singles = [c])
    (nestable : ∀ q, e.query? = some q → f.Nestable r.tree q) :
    Told account (f.edit r e) (Function.update story r (story r ++ [c])) := by
  have steps := (Step.edit ht nestable).steps
  have before := h.tells r t ht small
  rw [node_eq ht] at before
  have updated : f.Updated r (e.apply (f.node r)) (f.edit r e) := by
    rw [edit_eq ht]
    exact .modify ht small rfl
  refine h.update sound enclosed steps updated fun t' ht' => ?_
  rw [steps.surroundings sound enclosed ht ht' small, node_eq ht]
  exact faithful.edit ht asks single before

/-- Single changes are told as far as they are made. -/
theorem forM (hr : f.hasNode r) {changes : List Change} (single : ∀ c ∈ changes, c.singles = [c])
    (hq : ∀ c ∈ changes, ∀ q ∈ c.queries, f.hasNode q) :
    ∃ g, (changes.forM (Change.perform r) f = .ok () g ∨
        ∃ e, changes.forM (Change.perform r) f = .error e g) ∧
      Told account g (Function.update story r (story r ++ f.madeOf r changes)) := by
  -- By induction on the changes: the first one that fails ends the loop and what is noted.
  induction changes generalizing f story with
  | nil => exact ⟨f, Or.inl rfl, by rwa [madeOf, List.append_nil, Function.update_eq_self]⟩
  | cons c rest ih =>
      obtain ⟨t, ht, small⟩ := hasNode_iff.mp hr
      obtain ⟨request, asked⟩ := Change.requests_single (single c List.mem_cons_self) f t r
      have queries := hq c List.mem_cons_self
      have perform := c.perform_eq ht queries
      rw [asked] at perform
      rw [Build.forM_cons_apply, perform, madeOf, perform]
      cases request with
      | error e =>
          refine ⟨f, Or.inr ⟨e, rfl⟩, ?_⟩
          show Told account f (Function.update story r (story r ++ []))
          rwa [List.append_nil, Function.update_eq_self]
      | ok e =>
          have mem : .ok e ∈ c.requests f t r := asked ▸ List.mem_cons_self
          have nestable (q : NodeRef) (nests : e.query? = some q) : f.Nestable r.tree q :=
            (Change.requests_nestable queries mem nests).1
          have step : Step f Option.none (f.edit r e) := Step.edit ht nestable
          have first := h.edit faithful sound enclosed ht small (Change.asks_of_requests mem)
            (single c List.mem_cons_self) nestable
          obtain ⟨g, done, told⟩ := ih first (step.sound sound) (step.enclosed enclosed)
            (step.kept.hasNode hr) (fun c hc => single c (List.mem_cons_of_mem _ hc))
            (fun c hc q mem => step.kept.hasNode (hq c (List.mem_cons_of_mem _ hc) q mem))
          refine ⟨g, done, ?_⟩
          rwa [Function.update_self, Function.update_idem, List.append_assoc] at told

theorem changed (hr : f.hasNode r) {what : Change} (hq : ∀ q ∈ what.queries, f.hasNode q) :
    Told account (f.after (.call (.change r what))) (f.chronicled story (.call (.change r what))) := by
  obtain ⟨g, done, told⟩ := h.forM faithful sound enclosed hr
    (fun c hc => Change.singles_single hc) fun c hc q mem => hq q (Change.queries_singles hc mem)
  rw [← Change.perform_singles] at done
  rcases done with done | ⟨e, done⟩
  · rwa [@after_ok f g r (.change r what) (Build.then_ok r done)]
  · rwa [@after_error f g (.change r what) e (Build.then_error r done)]

theorem joined (hr : f.hasNode r) {source : NodeSource} {kind : Sql.JoinKind}
    {explicit : Option String} {what : Call}
    (perform : what.perform f = Build.addJoin r source kind explicit f)
    (steps : Steps f log (f.after (.call what))) : Told account (f.after (.call what)) story := by
  rcases addJoin_outcome hr source kind explicit with
    ⟨t, aliasName, aliases, ht, -, added⟩ | ⟨e, stopped⟩
  · have missing : ¬ f.hasNode ⟨r.tree, t.nodes.length⟩ :=
      fun there => Nat.lt_irrefl _ (lt_of_hasNode (r := ⟨r.tree, t.nodes.length⟩) ht there)
    rw [after_ok (perform.trans added)] at steps ⊢
    refine h.begun faithful sound enclosed steps (.addNode ht _ _) ⟨rfl, fun edge made => ?_⟩ missing
    exact Option.some.inj made ▸ rfl
  · rwa [after_error (perform.trans stopped)]

theorem attached (hr : f.hasNode r) {parent : NodeRef} (hp : f.hasNode parent) {what : Call}
    (perform : what.perform f = (Call.attachTo r parent).perform f)
    (steps : Steps f log (f.after (.call what))) : Told account (f.after (.call what)) story := by
  rcases attachTo_outcome hr hp with ⟨t, ht, linked⟩ | ⟨e, stopped⟩
  · have small := lt_of_hasNode ht hr
    rw [after_ok (perform.trans linked)] at steps ⊢
    have updated : f.Updated r (Tree.setParent parent.node (f.node r))
        (f.setTree r.tree (t.addLink r.node parent.node)) := .modify ht small rfl
    have told := h.update sound enclosed steps updated fun t' ht' => by
      rw [steps.surroundings sound enclosed ht ht' small]
      exact faithful.attach parent.node (h.tells r t ht small)
    rwa [Function.update_eq_self] at told
  · rwa [after_error (perform.trans stopped)]

theorem branched (hr : f.hasNode r) (steps : Steps f log (f.after (.call (.branch r)))) :
    Told account (f.after (.call (.branch r))) (f.chronicled story (.call (.branch r))) := by
  obtain ⟨t, ht, small⟩ := hasNode_iff.mp hr
  have done : (Call.branch r).perform f = _ := Build.branch_apply ht
  have noted : f.chronicled story (.call (.branch r))
      = Function.update story ⟨r.tree, t.nodes.length⟩ (story r) := by
    simp only [chronicled, done]
  rw [after_ok done] at steps ⊢
  rw [noted]
  refine h.update sound enclosed steps (.addNode ht _ _) fun t' ht' => ?_
  obtain rfl : t' = t.addNode (t.node r.node).branch t.aliases := by
    rw [tree?_setTree ht, if_pos rfl] at ht'
    exact (Option.some.inj ht').symm
  -- The copy stands where its node stands, and is as old as that in everything but its link.
  have copy := t.node_addNode_new (t.node r.node).branch t.aliases
  have original := t.node_addNode (t.node r.node).branch t.aliases small
  have around := Tree.surroundings_branch (f.setTree r.tree (t.addBranch r.node).2)
    (t.addNode (t.node r.node).branch t.aliases) (v := r.node) (w := t.nodes.length)
    (by rw [copy, original]; rfl) (by rw [copy, original]; rfl)
  rw [around, steps.surroundings sound enclosed ht ht' small, ← node_eq ht]
  exact faithful.branch _ (h.tells r t ht small)

/-- **A chronicle goes on telling the truth when an action is noted in it.** -/
theorem after (a : Action) (there : ∀ r ∈ a.nodes, f.hasNode r) :
    Told account (f.after a) (f.chronicled story a) := by
  have steps := sound.after_steps a there
  cases a with
  | hold name r => exact ⟨h.tells, h.none⟩
  | release name => exact ⟨h.tells, h.none⟩
  | call what =>
      have missing : ¬ f.hasNode ⟨f.trees.length, 0⟩ := fun there =>
        Nat.lt_irrefl _ (hasNode_lt there)
      have fresh {source : NodeSource} {aliasName : String} {result : ResultSettings}
          {outer : Option NodeRef} :
          Node.IsFresh { source, aliasName, result, origin := 0, outer } := ⟨rfl, nofun⟩
      cases what with
      | root mappings entity explicit result =>
          exact h.begun faithful sound enclosed steps (.addTree f rfl) fresh missing
      | subQuery outer entity explicit =>
          obtain ⟨t, ht⟩ := tree?_of_hasNode (there outer List.mem_cons_self)
          have made : (Call.subQuery outer entity explicit).perform f = _ :=
            Build.subQuery_apply ht entity explicit
          rw [after_ok made] at steps ⊢
          exact h.begun faithful sound enclosed steps (.addTree f rfl) fresh missing
      | branch r => exact h.branched faithful sound enclosed (there r List.mem_cons_self) steps
      | join r entity kind explicit =>
          exact h.joined faithful sound enclosed (there r List.mem_cons_self) rfl steps
      | joinQuery r query kind explicit =>
          have perform : (Call.joinQuery r query kind explicit).perform f = _ :=
            Build.joinQuery_apply (there query (List.mem_cons_of_mem _ List.mem_cons_self)) kind explicit
          split at perform
          · rwa [after_error perform]
          · exact h.joined faithful sound enclosed (there r List.mem_cons_self) perform steps
      | attach r =>
          have hr := there r List.mem_cons_self
          exact h.attached faithful sound enclosed hr (sound.hasNode_reference hr)
            (perform_attach hr) steps
      | attachTo r parent =>
          exact h.attached faithful sound enclosed (there r List.mem_cons_self)
            (there parent (List.mem_cons_of_mem _ List.mem_cons_self)) rfl steps
      | change r what =>
          exact h.changed faithful sound enclosed (there r List.mem_cons_self) fun q hq =>
            there q (List.mem_cons_of_mem _ hq)

/-- **The chronicle of a whole run tells the truth of every node.** -/
theorem run {actions : List Action} (admitted : f.admits actions) :
    Told account (f.run actions) (f.chronicle story actions) := by
  induction actions generalizing f story with
  | nil => exact h
  | cons a rest ih =>
      obtain ⟨there, admitted⟩ := admits_cons.mp admitted
      have steps := sound.after_steps a there
      exact ih (h.after faithful sound enclosed a there) (steps.sound sound)
        (steps.enclosed enclosed) admitted

end Steps

end Told

/-- What the chronicle of a run has of the nodes of a tree. -/
theorem told_run (faithful : account.Faithful) {actions : List Action} (admitted : empty.admits actions)
    (ht : (empty.run actions).tree? i = some t) {v : NodeId} (hv : v < t.nodes.length) :
    account (t.surroundings (empty.run actions) v) (t.node v) (chronicleOf actions ⟨i, v⟩) := by
  have told := (Told.empty.run faithful sound_empty enclosed_empty admitted).tells ⟨i, v⟩ t ht hv
  rwa [node_eq (r := ⟨i, v⟩) ht] at told

end Forest

end QueryForest
