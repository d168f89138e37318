import QueryForest.Proofs.Forest.Constancy
import QueryForest.Proofs.Forest.Nesting
import QueryForest.Proofs.Forest.Requests
import QueryForest.Proofs.Tree.Frame

set_option autoImplicit false

/-!
# What edits leave alone

The query of a node is read off its own tree and the trees below that one, so that it stays the same
when all of these do (`Sound.select_frame`). Inside its own tree it does not depend on nodes that its
walk does not list: an edit of such a node leaves it alone, as long as the edit is no condition of a
join (`Sound.render_edit`). The changes that a caller makes come to edits (`editedBy_after`).
-/

namespace QueryForest

/-! ## Edits that leave joins alone -/

/-- Whether an edit leaves the conditions of joins alone. -/
def Edit.isLocal : Edit → Bool
  | condition _ => false
  | _ => true

theorem Edit.join_apply_local {e : Edit} (isLocal : e.isLocal) (n : Node) :
    (e.apply n).join = n.join := by
  cases e with
  | condition c => exact absurd isLocal (Bool.false_ne_true)
  | select => simp only [apply, Node.select]; split <;> rfl
  | exclude => simp only [apply, Node.exclude]; split <;> rfl
  | _ => rfl

/-- Whether a change leaves the conditions of joins alone. -/
def Change.isLocal : Change → Bool
  | on _ => false
  | onWith _ _ => false
  | _ => true

theorem Change.isLocal_asks {f : Forest} {t : Tree} {r : NodeRef} {what : Change} {e : Edit}
    (asks : what.Asks f t r e) : e.isLocal = what.isLocal := by
  cases asks <;> rfl

namespace Forest

open Relation (ReflTransGen)

variable {f g : Forest} {t : Tree} {q r s : NodeRef} {e : Edit}

/-! ## Trees that stay the same -/

/-- **A query stays the same when its tree does, and all trees below it.** -/
theorem Sound.select_frame (hf : f.Sound) (hg : g.Sound) (hq : f.hasNode q)
    (same : ∀ j, Graph.Reaches f.nestedIn q.tree j → g.tree? j = f.tree? j) :
    g.select q = f.select q := by
  revert same
  refine hf.nested_induction ?_ hq
  intro q t ht _ ih same
  have ht' : g.tree? q.tree = some t := by rw [same q.tree (Graph.Reaches.refl _), ht]
  rw [hf.select_eq ht, hg.select_eq ht']
  refine Tree.select_congr (fun v p hp => ?_) q.node
  have nested : p ∈ t.queries := Tree.mem_queries_of_node hp
  -- What lies below a nested query lies below the query itself.
  have edge : p.tree ∈ f.nestedIn q.tree := edge_iff.mpr ⟨p, queriesOf_eq ht ▸ nested, rfl⟩
  exact ih p nested fun j below => same j (below.head edge)

/-- A change of a tree has no effect on the queries that the tree nests. -/
theorem Sound.select_nested (hf : f.Sound) (ht : f.tree? r.tree = some t) {t' : Tree}
    (hg : (f.setTree r.tree t').Sound) (hq : q ∈ t.queries) :
    (f.setTree r.tree t').select q = f.select q := by
  refine hf.select_frame hg (hf.hasNode_queries ht hq) fun j below => ?_
  have edge : q.tree ∈ f.nestedIn r.tree := edge_iff.mpr ⟨q, queriesOf_eq ht ▸ hq, rfl⟩
  have other : j ≠ r.tree := by
    rintro rfl
    exact hf.acyclic.not_reaches edge below
  rw [tree?_setTree ht, if_neg other]

/-! ## Edits of other nodes -/

/-- Whether one forest comes from another by an edit of the node `r` that leaves its join alone. -/
def EditOf (r : NodeRef) (f g : Forest) : Prop :=
  ∃ e t, e.isLocal ∧ f.tree? r.tree = some t ∧ (∀ q, e.query? = some q → f.Nestable r.tree q) ∧
    g = f.edit r e

theorem EditOf.step (edit : EditOf r f g) : Step f none g := by
  obtain ⟨e, t, -, ht, nestable, rfl⟩ := edit
  exact Step.edit ht nestable

/-- **An edit of a node leaves the statement of another node of its tree alone, when the walk of that
one does not list it.** -/
theorem Sound.render_edit (h : f.Sound) (edit : EditOf r f g) (hs : f.hasNode s)
    (here : s.tree = r.tree) (ht : f.tree? r.tree = some t) (apart : r.node ∉ t.walk s.node)
    (d : Sql.Dialect) : g.render d s = f.render d s := by
  have sound := edit.step.sound h
  obtain ⟨e, u, isLocal, hu, -, rfl⟩ := edit
  have before : f.tree? s.tree = some t := by rw [here, ht]
  have after : (f.edit r e).tree? s.tree = some (t.modify r.node e.apply) := by
    rw [here, tree?_edit ht]
  have tree := h.tree r.tree t ht
  have small : s.node < t.nodes.length := lt_of_hasNode before hs
  have alike := Tree.alike_edit (Edit.join_apply_local isLocal) small tree.linked apart
  -- The walk lists its own root, so that the edited node is another one.
  have listed : s.node ∈ t.walk s.node := tree.walk_cons small ▸ List.mem_cons_self
  have other : s.node ≠ r.node := by
    intro same
    exact apart (same ▸ listed)
  have node : (f.edit r e).node s = f.node s := by
    rw [node_eq after, node_eq before, t.node_modify_of_ne other]
  have select : (f.edit r e).select s = f.select s := by
    rw [sound.select_eq after, h.select_eq before]
    refine alike.select fun v _ q hq => ?_
    rw [edit_eq ht] at sound ⊢
    exact h.select_nested ht sound (Tree.mem_queries_of_node hq)
  unfold render
  rw [select, node]

/-! ## Changes as edits -/

theorem editedBy_editAll (ht : f.tree? r.tree = some t) (requests : List (Except QueryError Edit))
    (asked : ∀ e, .ok e ∈ requests → e.isLocal ∧ ∀ q, e.query? = some q →
      f.Nestable r.tree q ∧ requests = [.ok e]) :
    ∃ g, ReflTransGen (EditOf r) f g ∧
      (f.editAll r requests = .ok () g ∨ ∃ e, f.editAll r requests = .error e g) := by
  induction requests generalizing f t with
  | nil => exact ⟨f, .refl, Or.inl rfl⟩
  | cons request rest ih =>
      cases request with
      | error e => exact ⟨f, .refl, Or.inr ⟨e, rfl⟩⟩
      | ok e =>
          obtain ⟨isLocal, nestable⟩ := asked e List.mem_cons_self
          have first : EditOf r f (f.edit r e) :=
            ⟨e, t, isLocal, ht, fun q hq => (nestable q hq).1, rfl⟩
          -- As in `editAll_steps`, an edit that nests a query has no others behind it.
          obtain ⟨g, edits, done⟩ := ih (tree?_edit ht e) fun e' he' => by
            obtain ⟨isLocal', nestable'⟩ := asked e' (List.mem_cons_of_mem _ he')
            refine ⟨isLocal', fun q hq => ?_⟩
            have alone := (nestable' q hq).2
            rw [(List.cons.inj alone).2] at he'
            exact absurd he' List.not_mem_nil
          exact ⟨g, edits.head first, done⟩

/-- A change of a node, also one that fails midway, comes to edits of this node. -/
theorem editedBy_after (hr : f.hasNode r) {what : Change} (isLocal : what.isLocal)
    (hq : ∀ q ∈ what.queries, f.hasNode q) :
    ReflTransGen (EditOf r) f (f.after (.call (.change r what))) := by
  obtain ⟨t, ht⟩ := tree?_of_hasNode hr
  obtain ⟨g, edits, done⟩ := editedBy_editAll ht (what.requests f t r) fun e he => by
    refine ⟨?_, fun q nests => Change.requests_nestable hq he nests⟩
    rw [Change.isLocal_asks (Change.asks_of_requests he), isLocal]
  rcases done with done | ⟨e, done⟩
  · rw [← what.perform_eq ht hq] at done
    rwa [@after_ok f g r (.change r what) (Build.then_ok r done)]
  · rw [← what.perform_eq ht hq] at done
    rwa [@after_error f g (.change r what) e (Build.then_error r done)]

/-- Some changes of one node. -/
def changesOf (r : NodeRef) (changes : List Change) : List Action :=
  changes.map fun what => .call (.change r what)

theorem Sound.editedBy_run (h : f.Sound) (hr : f.hasNode r) {changes : List Change}
    (isLocal : ∀ what ∈ changes, what.isLocal) (admitted : f.admits (changesOf r changes)) :
    ReflTransGen (EditOf r) f (f.run (changesOf r changes)) := by
  -- By induction on the changes: the forest stays sound, and the node stays there.
  induction changes generalizing f with
  | nil => exact .refl
  | cons what rest ih =>
      obtain ⟨there, admitted⟩ := admits_cons.mp admitted
      have steps := h.after_steps (.call (.change r what)) there
      have first := editedBy_after hr (isLocal what List.mem_cons_self) fun q hq =>
        there q (List.mem_cons_of_mem _ hq)
      exact first.trans (ih (steps.sound h) (steps.kept.hasNode hr)
        (fun c hc => isLocal c (List.mem_cons_of_mem _ hc)) admitted)

end Forest

end QueryForest
