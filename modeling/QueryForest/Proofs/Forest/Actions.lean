import QueryForest.Proofs.Forest.Permanence
import QueryForest.Proofs.Forest.Updates

set_option autoImplicit false

/-!
# What actions do to nodes

An action begins a tree, adds a node, attaches a join, makes edits of one node, or does nothing to nodes
(`Does`, `Sound.after_does`). What it is not asked to change it leaves alone, be it another node or
something else about the same one (`Action.Spares`), and so does a run of such actions
(`Sound.run_spares`).
-/

namespace QueryForest

/-- The node that an action can change. A join is only changed by its own calls, not by those that name it
as the parent of another join. -/
def Action.subject? : Action → Option NodeRef
  | .call (.attach r) => some r
  | .call (.attachTo r _) => some r
  | .call (.change r _) => some r
  | _ => none

/-- For an action that begins a tree, the node around the tree, if there is one. -/
def Action.begun? : Action → Option (Option NodeRef)
  | .call (.root _ _ _ _) => some none
  | .call (.subQuery outer _ _) => some (some outer)
  | _ => none

/-- An action that is asked of a node begins no tree. -/
theorem Action.begun?_of_subject? {a : Action} {r : NodeRef} (h : a.subject? = some r) :
    a.begun? = none := by
  unfold subject? at h
  split at h
  · rfl
  · rfl
  · rfl
  · exact absurd h nofun

namespace Forest

variable {f g : Forest} {a : Action} {r : NodeRef} {t : Tree}

theorem node_of_trees (trees : g.trees = f.trees) : g.node r = f.node r :=
  node_congr (by rw [tree?, tree?, trees])

/-! ## Edits one after the other -/

/-- Edits until one is refused are the edits before it. -/
theorem editAll_foldl (f : Forest) (r : NodeRef) (requests : List (Except QueryError Edit)) :
    ∃ edits : List Edit, (∀ e ∈ edits, .ok e ∈ requests) ∧
      (f.editAll r requests = .ok () (edits.foldl (·.edit r) f) ∨
        ∃ e, f.editAll r requests = .error e (edits.foldl (·.edit r) f)) := by
  induction requests generalizing f with
  | nil => exact ⟨[], fun _ mem => absurd mem List.not_mem_nil, Or.inl rfl⟩
  | cons request rest ih =>
      cases request with
      | error e => exact ⟨[], fun _ mem => absurd mem List.not_mem_nil, Or.inr ⟨e, rfl⟩⟩
      | ok e =>
          obtain ⟨edits, asked, done⟩ := ih (f.edit r e)
          refine ⟨e :: edits, fun e' mem => ?_, done⟩
          rcases List.mem_cons.mp mem with rfl | mem
          · exact List.mem_cons_self
          · exact List.mem_cons_of_mem _ (asked e' mem)

theorem length_foldl_edit (edits : List Edit) (f : Forest) :
    (edits.foldl (·.edit r) f).trees.length = f.trees.length := by
  induction edits generalizing f with
  | nil => rfl
  | cons e rest ih =>
      have one : (f.edit r e).trees.length = f.trees.length := by
        unfold edit
        split
        · exact List.length_set
        · rfl
      exact (ih (f.edit r e)).trans one

/-- Edits of one node come to one change of it. -/
theorem updated_foldl_edit (hr : f.hasNode r) (edits : List Edit) :
    f.Updated r (edits.foldl (fun n e => e.apply n) (f.node r)) (edits.foldl (·.edit r) f) := by
  induction edits generalizing f with
  | nil => exact ⟨(Function.update_eq_self r f.node).symm, fun s => (or_iff_left_of_imp (· ▸ hr)).symm⟩
  | cons e rest ih =>
      obtain ⟨t, ht, small⟩ := hasNode_iff.mp hr
      have first : f.Updated r (e.apply (f.node r)) (f.edit r e) := by
        rw [edit_eq ht]
        exact .modify ht small rfl
      have others := ih ((hasNode_edit ht e).mpr hr)
      constructor
      · rw [List.foldl_cons, others.node, first.node, Function.update_idem, Function.update_self]
        rfl
      · intro s
        rw [List.foldl_cons, others.hasNode, hasNode_edit ht]

/-! ## Actions -/

/-- Whether the query that rows are taken from is there, and gives them its entity. -/
def Supplies (f : Forest) (source : NodeSource) : Prop :=
  ∀ q e, source = .query q e → f.hasNode q ∧ (f.node q).entity = e

theorem supplies_entity (f : Forest) (e : Entity) : f.Supplies (.entity e) := nofun

/-- What an action `a` does to the nodes and the number of the trees, from `f` to `g`. -/
inductive Does (f : Forest) (a : Action) (g : Forest) : Prop
  | nothing (quiet : a.begun? = none) (trees : g.trees = f.trees)
  | begin {root : Node} {e : Entity} (begins : a.begun? = some root.outer)
      (source : root.source = .entity e) (length : g.trees.length = f.trees.length + 1)
      (updated : f.Updated ⟨f.trees.length, 0⟩ root g)
  | branch {s v : NodeRef} (quiet : a.begun? = none) (length : g.trees.length = f.trees.length)
      (new : ¬ f.hasNode s) (there : f.hasNode v) (updated : f.Updated s (f.node v).branch g)
  | join {s : NodeRef} {n : Node} (quiet : a.begun? = none) (length : g.trees.length = f.trees.length)
      (new : ¬ f.hasNode s) (supplies : f.Supplies n.source) (updated : f.Updated s n g)
  | link {r : NodeRef} {parent : NodeId} (asked : a.subject? = some r) (there : f.hasNode r)
      (length : g.trees.length = f.trees.length)
      (updated : f.Updated r (Tree.setParent parent (f.node r)) g)
  | edit {r : NodeRef} {t : Tree} {what : Change} {edits : List Edit}
      (call : a = .call (.change r what)) (there : f.hasNode r)
      (length : g.trees.length = f.trees.length)
      (asks : ∀ e ∈ edits, what.Asks f t r e)
      (updated : f.Updated r (edits.foldl (fun n e => e.apply n) (f.node r)) g)

theorem does_nothing {what : Call} {e : QueryError} (quiet : (Action.call what).begun? = none)
    (failed : what.perform f = .error e f) : f.Does (.call what) (f.after (.call what)) := by
  rw [after_error failed]
  exact .nothing quiet rfl

theorem not_hasNode_length (ht : f.tree? r.tree = some t) : ¬ f.hasNode ⟨r.tree, t.nodes.length⟩ :=
  fun there => Nat.lt_irrefl _ (lt_of_hasNode (r := ⟨r.tree, t.nodes.length⟩) ht there)

theorem does_addJoin (hr : f.hasNode r) {source : NodeSource} (supplies : f.Supplies source)
    {kind : Sql.JoinKind} {explicit : Option String} {what : Call}
    (quiet : (Action.call what).begun? = none)
    (perform : what.perform f = Build.addJoin r source kind explicit f) :
    f.Does (.call what) (f.after (.call what)) := by
  rcases addJoin_outcome hr source kind explicit with ⟨t, aliasName, aliases, ht, -, made⟩ | ⟨e, failed⟩
  · rw [after_ok (perform.trans made)]
    exact .join quiet List.length_set (not_hasNode_length ht) supplies (.addNode ht _ _)
  · exact does_nothing quiet (perform.trans failed)

theorem does_attach (hr : f.hasNode r) {parent : NodeRef} (hp : f.hasNode parent) {what : Call}
    (asked : (Action.call what).subject? = some r)
    (perform : what.perform f = (Call.attachTo r parent).perform f) :
    f.Does (.call what) (f.after (.call what)) := by
  rcases attachTo_outcome hr hp with ⟨t, ht, linked⟩ | ⟨e, failed⟩
  · rw [after_ok (perform.trans linked)]
    exact .link asked hr List.length_set (.modify ht (lt_of_hasNode ht hr) rfl)
  · exact does_nothing (Action.begun?_of_subject? asked) (perform.trans failed)

theorem does_change (hr : f.hasNode r) {what : Change} (hq : ∀ q ∈ what.queries, f.hasNode q) :
    f.Does (.call (.change r what)) (f.after (.call (.change r what))) := by
  obtain ⟨t, ht⟩ := tree?_of_hasNode hr
  obtain ⟨edits, requested, done⟩ := f.editAll_foldl r (what.requests f t r)
  have left : f.after (.call (.change r what)) = edits.foldl (·.edit r) f := by
    rw [← what.perform_eq ht hq] at done
    rcases done with made | ⟨e, failed⟩
    · exact @after_ok f _ r (.change r what) (Build.then_ok r made)
    · exact @after_error f _ (.change r what) e (Build.then_error r failed)
  rw [left]
  exact .edit rfl hr (length_foldl_edit edits f) (fun e mem => Change.asks_of_requests (requested e mem))
    (updated_foldl_edit hr edits)

/-- **Every action does one of these things.** -/
theorem Sound.after_does (h : f.Sound) (a : Action) (there : ∀ r ∈ a.nodes, f.hasNode r) :
    f.Does a (f.after a) := by
  cases a with
  | hold name r => exact .nothing rfl rfl
  | release name => exact .nothing rfl rfl
  | call what =>
      cases what with
      | root mappings entity explicit result =>
          exact .begin rfl rfl List.length_append (.addTree f rfl)
      | subQuery outer entity explicit =>
          obtain ⟨t, ht⟩ := tree?_of_hasNode (there outer List.mem_cons_self)
          have made : (Call.subQuery outer entity explicit).perform f = _ :=
            Build.subQuery_apply ht entity explicit
          rw [after_ok made]
          exact .begin rfl rfl List.length_append (.addTree f rfl)
      | branch r =>
          have hr := there r List.mem_cons_self
          obtain ⟨t, ht⟩ := tree?_of_hasNode hr
          have made : (Call.branch r).perform f = _ := Build.branch_apply ht
          have copied : f.Updated ⟨r.tree, t.nodes.length⟩ (f.node r).branch
              (f.setTree r.tree (t.addBranch r.node).2) := by
            rw [node_eq ht]
            exact .addNode ht _ _
          rw [after_ok made]
          exact .branch rfl List.length_set (not_hasNode_length ht) hr copied
      | join r entity kind explicit =>
          exact does_addJoin (there r List.mem_cons_self) (supplies_entity f entity) rfl rfl
      | joinQuery r query kind explicit =>
          have hq := there query (List.mem_cons_of_mem _ List.mem_cons_self)
          have perform : (Call.joinQuery r query kind explicit).perform f = _ :=
            Build.joinQuery_apply hq kind explicit
          have supplies : f.Supplies (.query query (f.node query).entity) := fun q e same => by
            obtain ⟨rfl, rfl⟩ := NodeSource.query.inj same
            exact ⟨hq, rfl⟩
          split at perform
          · exact does_nothing rfl perform
          · exact does_addJoin (there r List.mem_cons_self) supplies rfl perform
      | attach r =>
          have hr := there r List.mem_cons_self
          exact does_attach hr (h.hasNode_reference hr) rfl (perform_attach hr)
      | attachTo r parent =>
          exact does_attach (there r List.mem_cons_self)
            (there parent (List.mem_cons_of_mem _ List.mem_cons_self)) rfl rfl
      | change r what =>
          exact does_change (there r List.mem_cons_self) fun q hq =>
            there q (List.mem_cons_of_mem _ hq)

/-- An action adds the tree that it begins, and no other. -/
theorem Does.length (does : f.Does a g) :
    g.trees.length = f.trees.length + a.begun?.toList.length := by
  cases does with
  | nothing quiet trees => rw [quiet, trees]; rfl
  | begin begins source length updated => rw [begins, length]; rfl
  | branch quiet length | join quiet length => rw [quiet, length]; rfl
  | link asked there length updated => rw [Action.begun?_of_subject? asked, length]; rfl
  | edit call there length asks updated => rw [call, length]; rfl

/-- A tree that an action begins has a root around which there is the node that the action was asked of. -/
theorem Does.begins (does : f.Does a g) {outer : Option NodeRef} (begins : a.begun? = some outer) :
    (g.node ⟨f.trees.length, 0⟩).outer = outer := by
  cases does with
  | begin begun source length updated =>
      rw [updated.node_self]
      exact Option.some.inj (begun.symm.trans begins)
  | nothing quiet => exact absurd (quiet.symm.trans begins) nofun
  | branch quiet | join quiet => exact absurd (quiet.symm.trans begins) nofun
  | link asked => exact absurd ((Action.begun?_of_subject? asked).symm.trans begins) nofun
  | edit call =>
      rw [call] at begins
      exact absurd begins nofun

/-- **An action leaves every node alone but the one that it is asked of.** -/
theorem Does.node_of_ne (does : f.Does a g) (hr : f.hasNode r) (other : a.subject? ≠ some r) :
    g.node r = f.node r := by
  cases does with
  | nothing quiet trees => exact node_of_trees trees
  | begin begins source length updated =>
      exact updated.node_of_ne fun same => Nat.lt_irrefl _ (hasNode_lt (same ▸ hr))
  | branch quiet length new there updated => exact updated.node_of_ne fun same => new (same ▸ hr)
  | join quiet length new supplies updated => exact updated.node_of_ne fun same => new (same ▸ hr)
  | link asked there length updated => exact updated.node_of_ne fun same => other (same ▸ asked)
  | edit call there length asks updated =>
      exact updated.node_of_ne fun same => other (by rw [call, same]; rfl)

end Forest

/-! ## What is left alone -/

section Spares

variable {α : Type} {p : Node → α} {r : NodeRef}

/-- Whether an action leaves something about a node alone. -/
def Action.Spares (p : Node → α) (r : NodeRef) (a : Action) : Prop :=
  ∀ f g : Forest, f.Does a g → f.hasNode r → p (g.node r) = p (f.node r)

theorem Action.spares_of_ne {a : Action} (other : a.subject? ≠ some r) : a.Spares p r :=
  fun _ _ does hr => congrArg p (does.node_of_ne hr other)

theorem Node.foldl_apply_eq {edits : List Edit} (each : ∀ e ∈ edits, ∀ n, p (e.apply n) = p n)
    (n : Node) : p (edits.foldl (fun n e => e.apply n) n) = p n := by
  induction edits generalizing n with
  | nil => rfl
  | cons e rest ih =>
      calc p ((e :: rest).foldl (fun n e => e.apply n) n)
          = p (e.apply n) := ih (fun e' mem => each e' (List.mem_cons_of_mem _ mem)) (e.apply n)
        _ = p n := each e List.mem_cons_self n

/-- What neither an attachment nor the edits of a change are about is spared by the change. -/
theorem Action.spares_of_asks {a : Action} (attach : ∀ parent n, p (Tree.setParent parent n) = p n)
    (edit : ∀ what, a = .call (.change r what) → ∀ f t e, what.Asks f t r e → ∀ n, p (e.apply n) = p n) :
    a.Spares p r := by
  by_cases asked : a.subject? = some r
  · intro f g does hr
    cases does with
    | nothing quiet trees => rw [Forest.node_of_trees trees]
    | begin begins =>
        rw [begun?_of_subject? asked] at begins
        exact absurd begins nofun
    | branch quiet length new there updated => rw [updated.node_of_ne fun same => new (same ▸ hr)]
    | join quiet length new supplies updated => rw [updated.node_of_ne fun same => new (same ▸ hr)]
    | link same there length updated =>
        obtain rfl := Option.some.inj (asked.symm.trans same)
        rw [updated.node_self, attach]
    | @edit s t what edits call there length asks updated =>
        rw [call] at asked
        obtain rfl := Option.some.inj asked
        rw [updated.node_self]
        exact Node.foldl_apply_eq (fun e mem => edit what call f t e (asks e mem)) (f.node s)
  · exact spares_of_ne asked

/-- **A run leaves alone what all of its actions spare.** -/
theorem Forest.Sound.run_spares {f : Forest} (h : f.Sound) {actions : List Action}
    (admitted : f.admits actions) (hr : f.hasNode r) (spares : ∀ a ∈ actions, a.Spares p r) :
    p ((f.run actions).node r) = p (f.node r) := by
  induction actions generalizing f with
  | nil => rfl
  | cons a rest ih =>
      obtain ⟨there, admitted⟩ := admits_cons.mp admitted
      have steps := h.after_steps a there
      calc p ((f.run (a :: rest)).node r)
          = p ((f.after a).node r) :=
            ih (steps.sound h) admitted (steps.kept.hasNode hr) fun b hb =>
              spares b (List.mem_cons_of_mem _ hb)
        _ = p (f.node r) := spares a List.mem_cons_self f (f.after a) (h.after_does a there) hr

end Spares

end QueryForest
