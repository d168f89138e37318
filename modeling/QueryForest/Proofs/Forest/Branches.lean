import QueryForest.Proofs.Forest.Frame
import QueryForest.Proofs.Forest.Fragments
import QueryForest.Proofs.Forest.Walks

set_option autoImplicit false

/-!
# Branches

A branch is a copy of its node that lists the joins of the node as its own. So a node and its branch
have the same statement at first (`branch_run`). What is asked of one of them later on leaves the other
one alone (`Undisturbed`), while the joins that are attached to either of them, or below, are written in
both statements at the same place (`JoinsShared`). It makes no difference whether the node is the root,
a join in the middle of the tree or a branch itself, and what else was asked of the forest meanwhile.
-/

namespace QueryForest

open Sql (Select Fragments Statement)

/-! ## Joins -/

namespace Tree

variable {t : Tree} {nested : NodeRef → Except QueryError Select} {root root' : NodeId}

/-- Whether a join of a query is the one that a node makes, with the condition under its parent. -/
def IsJoinOf (nested : NodeRef → Except QueryError Select) (t : Tree) (id : NodeId)
    (item : Sql.JoinItem) : Prop :=
  ∃ source, (t.node id).tableSource nested = .ok source ∧ t.joinItem (t.node id) source = .ok item

/-- A node makes one join. -/
theorem IsJoinOf.unique {id : NodeId} {item item' : Sql.JoinItem} (h : t.IsJoinOf nested id item)
    (h' : t.IsJoinOf nested id item') : item' = item := by
  obtain ⟨source, found, made⟩ := h
  obtain ⟨source', found', made'⟩ := h'
  obtain rfl := Except.ok.inj (found.symm.trans found')
  exact Except.ok.inj (made'.symm.trans made)

/-- A query has the joins of the nodes behind its root, in the order of the walk. -/
theorem Sound.select_joins (sound : t.Sound) (hroot : root < t.nodes.length) {s : Select}
    (h : t.select nested root = .ok s) :
    List.Forall₂ (t.IsJoinOf nested) (t.walk root).tail s.joins := by
  obtain ⟨-, rootPart, joined, assembled, rfl, -⟩ := sound.select_ok hroot h
  show List.Forall₂ (t.IsJoinOf nested) (t.walk root).tail (joined.map (·.2))
  rw [List.forall₂_map_right_iff]
  refine assembled.behind.imp fun id pair made => ?_
  obtain ⟨part, item⟩ := joinedPart_ok made
  obtain ⟨-, -, -, -, -, -, source⟩ := part_ok part
  exact ⟨pair.1.source, source, item⟩

/-- The walks of nodes of one origin are the same behind the nodes. -/
theorem Linked.tail_walk_eq (linked : t.Linked) (hroot : root < t.nodes.length)
    (hroot' : root' < t.nodes.length) (origin : t.origin root' = t.origin root) :
    (t.walk root').tail = (t.walk root).tail := by
  rw [linked.walk_eq hroot, linked.walk_eq hroot', origin, List.tail_cons, List.tail_cons]

/-- A join hangs behind a node as soon as its parent has the origin of a node of the walk. -/
theorem Linked.mem_tail_of_child (linked : t.Linked) (hroot : root < t.nodes.length) {v join : NodeId}
    (hv : v ∈ t.walk root) (child : t.IsChild (t.origin v) join) : join ∈ (t.walk root).tail := by
  rw [linked.mem_tail_walk hroot]
  rcases (linked.mem_walk hroot).mp hv with rfl | below
  · exact Relation.TransGen.single child
  · rw [linked.origin_join v below.isJoin] at child
    exact Relation.TransGen.tail below child

end Tree

namespace Forest

open Relation (ReflTransGen)

variable {f g : Forest} {t : Tree} {r s b : NodeRef} {log : List (NodeRef × NodeRef)}

/-! ## Nodes that share their joins -/

/-- Whether two nodes list the same joins and take their rows from the same table, as a node and a
branch of it do. -/
structure Shares (f : Forest) (r b : NodeRef) : Prop where
  tree : b.tree = r.tree
  other : b ≠ r
  there : f.hasNode r
  there' : f.hasNode b
  origin : (f.node b).origin = (f.node r).origin
  source : (f.node b).source = (f.node r).source

namespace Shares

theorem symm (h : f.Shares r b) : f.Shares b r :=
  ⟨h.tree.symm, h.other.symm, h.there', h.there, h.origin.symm, h.source.symm⟩

/-- Nothing that is asked of a forest changes what nodes share. -/
theorem steps (h : f.Shares r b) (steps : Steps f log g) : g.Shares r b := by
  have origin {s : NodeRef} := steps.constant (r := s) Node.constant_origin
  have source {s : NodeRef} := steps.constant (r := s) Node.constant_source
  constructor
  case tree => exact h.tree
  case other => exact h.other
  case there => exact steps.kept.hasNode h.there
  case there' => exact steps.kept.hasNode h.there'
  case origin => rw [origin h.there, origin h.there', h.origin]
  case source => rw [source h.there, source h.there', h.source]

/-- The two nodes in their tree. -/
theorem inside (h : f.Shares r b) (ht : f.tree? r.tree = some t) : f.tree? b.tree = some t ∧
    r.node < t.nodes.length ∧ b.node < t.nodes.length ∧ t.origin b.node = t.origin r.node := by
  have ht' : f.tree? b.tree = some t := by rw [h.tree, ht]
  have origin := h.origin
  rw [node_eq ht, node_eq ht'] at origin
  exact ⟨ht', lt_of_hasNode ht h.there, lt_of_hasNode ht' h.there', origin⟩

/-- The walk from one of them does not list the other. -/
theorem apart (h : f.Shares r b) (sound : f.Sound) (ht : f.tree? r.tree = some t) :
    r.node ∉ t.walk b.node := by
  obtain ⟨-, -, small', origin⟩ := h.inside ht
  have linked := (sound.tree r.tree t ht).linked
  rw [linked.mem_walk small']
  rintro (same | below)
  · refine h.other ?_
    calc b = ⟨b.tree, b.node⟩ := rfl
      _ = ⟨r.tree, r.node⟩ := by rw [h.tree, same]
  · rw [origin] at below
    exact linked.not_below r.node below

end Shares

/-! ## What is asked of one node alone -/

/-- Whether the statement of a node stays the same, whatever is asked of the other one: any changes but
the conditions of joins, one after the other, with those that fail. -/
def Undisturbed (f : Forest) (s r : NodeRef) : Prop :=
  ∀ changes : List Change, (∀ what ∈ changes, what.isLocal) → f.admits (changesOf r changes) →
    ∀ d, (f.run (changesOf r changes)).render d s = f.render d s

theorem Shares.render_edits (h : f.Shares r b) (sound : f.Sound)
    (edits : ReflTransGen (EditOf r) f g) (d : Sql.Dialect) : g.render d b = f.render d b := by
  have all : g.Sound ∧ g.Shares r b ∧ g.render d b = f.render d b := by
    induction edits with
    | refl => exact ⟨sound, h, rfl⟩
    | tail _ edit ih =>
        obtain ⟨sound, shares, same⟩ := ih
        obtain ⟨t, ht⟩ := tree?_of_hasNode shares.there
        have kept := sound.render_edit edit shares.there' shares.tree ht (shares.apart sound ht) d
        exact ⟨edit.step.sound sound, shares.steps edit.step.steps, kept.trans same⟩
  exact all.2.2

theorem Shares.undisturbed (h : f.Shares r b) (sound : f.Sound) : f.Undisturbed b r :=
  fun _ isLocal admitted => h.render_edits sound (sound.editedBy_run h.there isLocal admitted)

/-! ## Joins of both -/

/-- What the statements of two nodes have in common that share their joins; `log` has joins that were
attached, each with its parent. -/
structure JoinsShared (f : Forest) (log : List (NodeRef × NodeRef)) (r b : NodeRef) : Prop where
  /-- Both have the same tables in the same order. -/
  tables : ∀ s s', f.select r = .ok s → f.select b = .ok s' → s'.source = s.source ∧ s'.joins = s.joins
  /-- A join that was attached to one of them, or to a node below, or to a branch of such a node, has
  its place among these tables. -/
  places : ∀ s t, f.select r = .ok s → f.tree? r.tree = some t → ∀ a ∈ log, a.2.tree = r.tree →
    (∃ v ∈ t.walk r.node, t.origin a.2.node = t.origin v) →
    ∃ (k : Nat) (item : Sql.JoinItem), (t.walk r.node).tail[k]? = some a.1.node ∧
      (t.walk b.node).tail[k]? = some a.1.node ∧ s.joins[k]? = some item ∧
      t.IsJoinOf f.select a.1.node item
  /-- The tables are written in the same way, and stand in both statements behind the columns. -/
  written : ∀ d statement statement', f.render d r = .ok statement → f.render d b = .ok statement' →
    ∃ fragments fragments' tables, f.fragments d r = .ok fragments ∧
      f.fragments d b = .ok fragments' ∧
      statement.sql = fragments.statementText d tables (f.node r).limit (f.node r).offset ∧
      statement'.sql = fragments'.statementText d tables (f.node b).limit (f.node b).offset

/-- The text of a statement, by its fragments and its tables. -/
theorem render_text {d : Sql.Dialect} {q : Select} {statement : Statement}
    (selected : f.select r = .ok q) (made : f.render d r = .ok statement) :
    statement.sql = (Fragments.ofSelect d q).statementText d (Fragments.tables d q)
      (f.node r).limit (f.node r).offset := by
  obtain ⟨q', selected', sql, -⟩ := render_ok made
  obtain rfl := Except.ok.inj (selected.symm.trans selected')
  obtain ⟨t, nested, ht, fromTree⟩ := select_tree selected
  obtain ⟨limit, offset, source, -, first⟩ := Tree.select_root fromTree
  rw [← node_eq ht] at limit offset first
  rw [sql, Sql.writeAll_ofSelect d first limit offset]

theorem select_shown {q : Select} (selected : f.select r = .ok q) : ∀ e ∈ q.columns, e.Shown := by
  obtain ⟨t, nested, -, fromTree⟩ := select_tree selected
  exact (Tree.select_formed (Q := fun _ => True) (fun _ _ _ => trivial) fromTree).columns

/-- An attached join is a child of its parent. -/
theorem Logged.isChild (h : Logged f log) (sound : f.Sound) {a : NodeRef × NodeRef} (ha : a ∈ log)
    (ht : f.tree? a.2.tree = some t) : t.IsChild (t.origin a.2.node) a.1.node := by
  obtain ⟨same, -⟩ := h.parent a ha
  rw [same] at ht
  rw [← (sound.tree a.1.tree t ht).linked.mem_links, h.links a.1.tree t ht]
  exact List.mem_map_of_mem (List.mem_filter.mpr ⟨ha, decide_eq_true rfl⟩)

namespace Shares

theorem tables (h : f.Shares r b) (sound : f.Sound) {q q' : Select} (selected : f.select r = .ok q)
    (selected' : f.select b = .ok q') : q'.source = q.source ∧ q'.joins = q.joins := by
  obtain ⟨t, ht⟩ := tree?_of_hasNode h.there
  obtain ⟨ht', small, small', origin⟩ := h.inside ht
  have tree := sound.tree r.tree t ht
  rw [sound.select_eq ht] at selected
  rw [sound.select_eq ht'] at selected'
  constructor
  · obtain ⟨-, -, source, found, first⟩ := Tree.select_root selected
    obtain ⟨-, -, source', found', first'⟩ := Tree.select_root selected'
    -- Both go by one alias, and read from the same table.
    have aliasName : t.aliasOf b.node = t.aliasOf r.node :=
      (tree.named.aliasOf_inj tree.linked small' small).mpr origin
    have rows : (t.node b.node).source = (t.node r.node).source := by
      have same := h.source
      rwa [node_eq ht, node_eq ht'] at same
    have table : (t.node b.node).tableSource f.select = (t.node r.node).tableSource f.select := by
      unfold Node.tableSource
      rw [rows]
    rw [table] at found'
    obtain rfl := Except.ok.inj (found.symm.trans found')
    rw [first, first']
    exact congrArg (fun a => some (Sql.FromItem.mk source (some a))) aliasName
  · have joins := tree.select_joins small selected
    have joins' := tree.select_joins small' selected'
    rw [tree.linked.tail_walk_eq small small' origin] at joins'
    have unique : Relator.RightUnique (t.IsJoinOf f.select) :=
      fun _ _ _ made made' => made'.unique made
    exact unique.forall₂ joins' joins

/-- **Nodes that share their joins write them in the same way and at the same place.** -/
theorem joinsShared (h : f.Shares r b) (sound : f.Sound) (logged : Logged f log) :
    f.JoinsShared log r b := by
  constructor
  case tables => exact fun q q' => h.tables sound
  case places =>
    rintro q t selected ht a ha here ⟨v, hv, origin⟩
    obtain ⟨-, small, small', shared⟩ := h.inside ht
    have tree := sound.tree r.tree t ht
    -- The join hangs under its parent, so that it is listed behind both nodes at one place.
    have child := logged.isChild sound ha (by rw [here, ht])
    rw [origin] at child
    have listed := tree.linked.mem_tail_of_child small hv child
    rw [sound.select_eq ht] at selected
    have joins := tree.select_joins small selected
    obtain ⟨k, hk, same⟩ := List.getElem_of_mem listed
    have hk' : k < q.joins.length := joins.length_eq ▸ hk
    have place : (t.walk r.node).tail[k]? = some a.1.node := by
      rw [List.getElem?_eq_getElem hk, same]
    refine ⟨k, q.joins[k], place, ?_, List.getElem?_eq_getElem hk', ?_⟩
    · rw [tree.linked.tail_walk_eq small small' shared, place]
    · rw [← same]
      exact joins.get hk hk'
  case written =>
    intro d statement statement' made made'
    obtain ⟨q, selected, -, -⟩ := render_ok made
    obtain ⟨q', selected', -, -⟩ := render_ok made'
    obtain ⟨source, joins⟩ := h.tables sound selected selected'
    have tables := Fragments.tables_congr d source joins (select_shown selected)
      (select_shown selected')
    refine ⟨_, _, Fragments.tables d q, fragments_ok selected, fragments_ok selected',
      render_text selected made, ?_⟩
    rw [← tables]
    exact render_text selected' made'

end Shares

/-! ## A branch and its node -/

/-- A new branch shares the joins of its node, and has the same statement. -/
theorem Sound.branch_shares (h : f.Sound) (hr : f.hasNode r) : ∃ b g,
    (Call.branch r).perform f = .ok b g ∧ Step f none g ∧ g.Shares r b ∧
      ∀ d, g.render d b = g.render d r := by
  obtain ⟨t, ht, small⟩ := hasNode_iff.mp hr
  let t' := t.addNode (t.node r.node).branch t.aliases
  let b : NodeRef := ⟨r.tree, t.nodes.length⟩
  have step : Step f none (f.setTree r.tree t') := Step.branch ht small
  have sound := step.sound h
  refine ⟨b, f.setTree r.tree t', Build.branch_apply ht, step, ?_⟩
  have after : (f.setTree r.tree t').tree? r.tree = some t' := by rw [tree?_setTree ht, if_pos rfl]
  have node : t'.node r.node = t.node r.node := t.node_addNode _ _ small
  have copy : t'.node b.node = (t.node r.node).branch := t.node_addNode_new _ _
  have larger : t'.nodes.length = t.nodes.length + 1 := t.length_addNode _ _
  have new : b.node < t'.nodes.length := larger ▸ Nat.lt_succ_self _
  have small' : r.node < t'.nodes.length := Nat.lt_trans small new
  constructor
  · constructor
    case tree => rfl
    case other =>
      intro same
      have places : t.nodes.length = r.node := congrArg NodeRef.node same
      exact Nat.ne_of_gt small places
    case there => exact hasNode_iff.mpr ⟨t', after, small'⟩
    case there' => exact hasNode_iff.mpr ⟨t', after, new⟩
    case origin =>
      rw [node_eq (r := b) after, node_eq after, node, copy]
      rfl
    case source =>
      rw [node_eq (r := b) after, node_eq after, node, copy]
      rfl
  · intro d
    have copied : (t'.node b.node).branch = (t'.node r.node).branch := by
      rw [node, copy]
      rfl
    have alike := (sound.tree r.tree t' after).linked.alike_branch small' new copied
    have select : (f.setTree r.tree t').select b = (f.setTree r.tree t').select r := by
      rw [sound.select_eq after, sound.select_eq (r := b) after]
      exact alike.select fun _ _ _ _ => rfl
    have result : ((f.setTree r.tree t').node b).result = ((f.setTree r.tree t').node r).result := by
      rw [node_eq (r := b) after, node_eq after, node, copy]
      rfl
    unfold render
    rw [select, result]

/-- **A branch of a node has the statement of the node at first, or fails with the same error. Whatever
is asked of the forest after that, what is then asked of one of the two alone leaves the statement of
the other one as it is; and the joins that were attached to one of them, or below, are written in both
of their statements at the same place.** -/
theorem branch_run (h : f.Reachable) (hr : f.hasNode r) : ∃ b g,
    (Call.branch r).perform f = .ok b g ∧ (∀ d, g.render d b = g.render d r) ∧
    ∀ actions, g.admits actions →
      (g.run actions).Undisturbed b r ∧ (g.run actions).Undisturbed r b ∧
      (g.run actions).JoinsShared (g.attachments actions) r b := by
  obtain ⟨b, g, made, step, shares, same⟩ := h.sound.branch_shares hr
  refine ⟨b, g, made, same, fun actions admitted => ?_⟩
  have sound := step.sound h.sound
  have steps := sound.run_steps actions admitted
  -- The two share their joins from then on, whatever the run does.
  have later := shares.steps steps
  have soundLater := steps.sound sound
  -- The joins of the run are the last ones of all that were ever attached.
  obtain ⟨before, admittedBefore, rfl⟩ := h
  have logged := ((Logged.empty.steps (sound_empty.run_steps before admittedBefore)).step step).steps
    steps
  have joins := later.joinsShared soundLater logged
  refine ⟨later.undisturbed soundLater, later.symm.undisturbed soundLater, joins.tables, ?_,
    joins.written⟩
  exact fun s t selected ht a ha => joins.places s t selected ht a (List.mem_append_right _ ha)

/-- The customers of orders, in the middle of a query. -/
def midway : List Action :=
  [.call (.root {} ⟨"order", "Order", "orders"⟩ (some "o") {}),
    .call (.join ⟨0, 0⟩ ⟨"customer", "Customer", "customers"⟩ .inner (some "c")),
    .call (.change ⟨0, 1⟩ (.onWith (.column "customer_id") (.column "id"))),
    .call (.attach ⟨0, 1⟩),
    .call (.change ⟨0, 1⟩ (.select (.column "name") none))]

/-- The addresses of customers, attached to a branch of them. -/
def addressed : List Action :=
  [.call (.join ⟨0, 2⟩ ⟨"address", "Address", "addresses"⟩ .left (some "a")),
    .call (.change ⟨0, 3⟩ (.onWith (.column "id") (.column "customer_id"))),
    .call (.attach ⟨0, 3⟩)]

/-- What is asked of the branch is not seen from its node, but the join is. -/
theorem branch_run_midway : ∃ g, (Call.branch ⟨0, 1⟩).perform (empty.run midway) = .ok ⟨0, 2⟩ g ∧
    g.render .mysql ⟨0, 2⟩ = g.render .mysql ⟨0, 1⟩ ∧
    (g.run addressed).JoinsShared [(⟨0, 3⟩, ⟨0, 2⟩)] ⟨0, 1⟩ ⟨0, 2⟩ ∧
    ∃ statement, ((g.run addressed).run (changesOf ⟨0, 2⟩ [.exclude (.column "name"), .limit 5])).render
        (.ansi .positional) ⟨0, 1⟩ = .ok statement ∧
      statement.sql
        = "SELECT c.name FROM customers c LEFT JOIN addresses a ON (c.id = a.customer_id)" := by
  have reachable : (empty.run midway).Reachable := ⟨midway, by decide, rfl⟩
  have branched : (Call.branch ⟨0, 1⟩).perform (empty.run midway)
      = .ok ⟨0, 2⟩ ((empty.run midway).after (.call (.branch ⟨0, 1⟩))) := rfl
  obtain ⟨b, g, made, same, later⟩ := @branch_run _ ⟨0, 1⟩ reachable (by decide)
  obtain ⟨rfl, rfl⟩ := EStateM.Result.ok.inj (made.symm.trans branched)
  obtain ⟨-, undisturbed, shared⟩ := later addressed (by decide)
  refine ⟨_, made, same .mysql, shared, ?_⟩
  rw [undisturbed [.exclude (.column "name"), .limit 5] (by decide) (by decide)]
  obtain ⟨statement, written⟩ : ∃ statement, (((empty.run midway).after (.call (.branch ⟨0, 1⟩))).run
      addressed).render (.ansi .positional) ⟨0, 1⟩ = .ok statement := ⟨_, rfl⟩
  have text : ((((empty.run midway).after (.call (.branch ⟨0, 1⟩))).run addressed).render
      (.ansi .positional) ⟨0, 1⟩).toOption.map (·.sql)
        = some "SELECT c.name FROM customers c LEFT JOIN addresses a ON (c.id = a.customer_id)" := by
    decide +kernel
  rw [written] at text
  exact ⟨statement, written, Option.some.inj text⟩

end Forest

end QueryForest
