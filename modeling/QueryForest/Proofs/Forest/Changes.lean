import QueryForest.Proofs.Forest.Edits
import QueryForest.Proofs.Tree.Nodes

set_option autoImplicit false

/-!
# What changes do

`Change.perform_eq`: performing a change on a node makes the edits that the change asks for, up to
the first error. The lemmas before it say what each small step of a call does to a forest in which
the node exists.
-/

namespace QueryForest

/-! ## Small steps -/

/-- The node of a reference is that of its tree. -/
theorem Forest.node_eq {f : Forest} {r : NodeRef} {t : Tree} (ht : f.tree? r.tree = some t) :
    f.node r = t.node r.node := by
  simp [node, ht]

namespace Build

variable {f : Forest} {t : Tree} {r : NodeRef}

theorem bind_apply {α β : Type} (x : Build α) (g : α → Build β) (f : Forest) :
    (x >>= g) f = match x f with
      | .ok a f' => g a f'
      | .error e f' => .error e f' := by
  show EStateM.bind x g f = _
  unfold EStateM.bind
  cases x f <;> rfl

theorem pure_apply {α : Type} (a : α) (f : Forest) : (pure a : Build α) f = .ok a f := rfl

theorem ofExcept_apply {α : Type} (x : Except QueryError α) (f : Forest) :
    ofExcept x f = match x with
      | .ok a => .ok a f
      | .error e => .error e f := by
  cases x <;> rfl

theorem tree_apply (ht : f.tree? r.tree = some t) : tree r f = .ok t f := by
  have found : (get : Build Forest) f = .ok f f := rfl
  unfold tree
  rw [bind_apply, found]
  simp only [ht]
  rfl

theorem node_apply (ht : f.tree? r.tree = some t) : node r f = .ok (t.node r.node) f := by
  rw [node, bind_apply, tree_apply ht]
  rfl

theorem write_apply {α : Type} (ht : f.tree? r.tree = some t) (change : EStateM QueryError Tree α) :
    write r change f = match change t with
      | .ok a t' => .ok a (f.setTree r.tree t')
      | .error e t' => .error e (f.setTree r.tree t') := by
  rw [write, bind_apply, tree_apply ht]
  show (match change t with
    | .ok a t' => setTree r.tree t' >>= fun _ => pure a
    | .error e t' => setTree r.tree t' >>= fun _ => throw e : Build α) f = _
  cases change t <;> rfl

theorem update_apply (ht : f.tree? r.tree = some t) (change : Node → Node) :
    update r change f = .ok () (f.setTree r.tree (t.modify r.node change)) := by
  rw [update, bind_apply, tree_apply ht]
  rfl

theorem resolveFor_apply (ht : f.tree? r.tree = some t) (entity : Entity) (target : Target) :
    resolveFor r entity target f = ofExcept (t.resolve entity target) f := by
  rw [resolveFor, bind_apply, tree_apply ht]

theorem resolve_apply (ht : f.tree? r.tree = some t) (target : Target) :
    resolve r target f = ofExcept (t.column r.node target) f := by
  rw [resolve, bind_apply, node_apply ht]
  exact resolveFor_apply ht _ target

theorem resolveOption_apply (ht : f.tree? r.tree = some t) (target : Option Target) :
    resolveOption r target f = ofExcept (t.columnOption r.node target) f := by
  cases target with
  | none => rfl
  | some target =>
      rw [resolveOption, bind_apply, resolve_apply ht, ofExcept_apply, ofExcept_apply,
        Tree.columnOption]
      cases t.column r.node target <;> rfl

theorem nest_apply {query : NodeRef} {u : Tree} (hu : f.tree? query.tree = some u) :
    nest r query f = ofExcept (f.checkNest r query) f := by
  have same : f.node query = u.node query.node := Forest.node_eq hu
  rw [nest, bind_apply]
  show (if f.contains query.tree r.tree = true
    then (node query >>= fun n => throw (.cycle n.aliasName)) else pure () : Build Unit) f = _
  unfold Forest.checkNest
  split
  · rw [bind_apply, node_apply hu, same]
    rfl
  · rfl

theorem reference_apply (ht : f.tree? r.tree = some t) : reference r f = .ok (f.reference r) f := by
  have same : f.node r = t.node r.node := Forest.node_eq ht
  rw [reference, bind_apply, node_apply ht, Forest.reference, same]
  cases h : (t.node r.node).join <;> simp [pure_apply, h]

end Build

/-! ## Edits -/

theorem Forest.tree?_of_hasNode {f : Forest} {r : NodeRef} (h : f.hasNode r) :
    ∃ t, f.tree? r.tree = some t := by
  cases ht : f.tree? r.tree with
  | none => simp [hasNode, ht] at h
  | some t => exact ⟨t, rfl⟩

theorem Forest.setTree_self {f : Forest} {i : TreeId} {t : Tree} (h : f.tree? i = some t) :
    f.setTree i t = f := by
  obtain ⟨hi, rfl⟩ := List.getElem?_eq_some_iff.mp h
  exact congrArg (Forest.mk · f.handles) (List.set_getElem_self hi)

theorem Forest.tree?_setTree {f : Forest} {i : TreeId} {t : Tree} (h : f.tree? i = some t)
    (t' : Tree) (j : TreeId) :
    (f.setTree i t').tree? j = if j = i then some t' else f.tree? j := by
  have hi : i < f.trees.length := (List.getElem?_eq_some_iff.mp h).1
  by_cases hj : j = i
  · subst hj
    simp [Forest.tree?, Forest.setTree, hi]
  · simp [Forest.tree?, Forest.setTree, hj, List.getElem?_set_ne (Ne.symm hj)]

theorem Forest.edit_eq {f : Forest} {r : NodeRef} {t : Tree} (ht : f.tree? r.tree = some t)
    (e : Edit) : f.edit r e = f.setTree r.tree (t.modify r.node e.apply) := by
  simp [Forest.edit, ht]

theorem Forest.tree?_edit {f : Forest} {r : NodeRef} {t : Tree} (ht : f.tree? r.tree = some t)
    (e : Edit) : (f.edit r e).tree? r.tree = some (t.modify r.node e.apply) := by
  rw [edit_eq ht, tree?_setTree ht, if_pos rfl]

/-- An edit has no effect on how targets are looked up. -/
theorem Tree.column_modify (t : Tree) (id : NodeId) (e : Edit) (target : Target) :
    (t.modify id e.apply).column id target = t.column id target := by
  have same : ((t.modify id e.apply).node id).entity = (t.node id).entity := by
    rw [node_modify]
    split
    · exact congrArg NodeSource.entityOf (e.source_apply _)
    · rfl
  unfold column
  rw [same]
  rfl

namespace Build

variable {f : Forest} {t : Tree} {r : NodeRef}

theorem update_edit (ht : f.tree? r.tree = some t) (e : Edit) :
    update r e.apply f = f.editAll r [.ok e] := by
  show update r e.apply f = .ok () (f.edit r e)
  rw [update_apply ht, Forest.edit_eq ht]

/-- Looking something up and going on with a step that depends on it. -/
theorem lookup_apply {α : Type} {x : Build α} {found : Except QueryError α}
    (hx : x f = ofExcept found f) {next : α → Build Unit} {request : α → Except QueryError Edit}
    (hnext : ∀ a, next a f = f.editAll r [request a]) :
    (x >>= next) f = f.editAll r [found >>= request] := by
  rw [bind_apply, hx, ofExcept_apply]
  cases found with
  | error e => rfl
  | ok a => exact hnext a

/-- Looking something up and making the edit that comes out of it. -/
theorem request_apply {α : Type} (ht : f.tree? r.tree = some t) {x : Build α}
    {found : Except QueryError α} (hx : x f = ofExcept found f) (edit : α → Edit) :
    (x >>= fun a => update r (edit a).apply) f = f.editAll r [found.map edit] := by
  have step := @lookup_apply _ r _ x found hx _ (fun a => .ok (edit a)) fun a => update_edit ht (edit a)
  rw [step]
  cases found <;> rfl

/-- A call for several targets makes the edits for one after the other. -/
theorem forM_apply {op : Target → Build Unit}
    {request : Except QueryError ColumnRef → Except QueryError Edit}
    (each : ∀ {f : Forest} {t : Tree}, f.tree? r.tree = some t →
      ∀ target, op target f = f.editAll r [request (t.column r.node target)])
    (ht : f.tree? r.tree = some t) (targets : List Target) :
    targets.forM op f
      = f.editAll r (targets.map fun target => request (t.column r.node target)) := by
  induction targets generalizing f t with
  | nil => rfl
  | cons target rest ih =>
      show (op target >>= fun _ => rest.forM op) f = _
      rw [bind_apply, each ht target, List.map_cons]
      cases h : request (t.column r.node target) with
      | error e => rfl
      | ok e =>
          show rest.forM op (f.edit r e) = (f.edit r e).editAll r _
          rw [ih (Forest.tree?_edit ht e)]
          simp only [Tree.column_modify]

end Build

/-! ## Changes -/

open Build in
/-- **A change makes the edits it asks for, up to the first error.** -/
theorem Change.perform_eq {f : Forest} {t : Tree} {r : NodeRef} (what : Change)
    (ht : f.tree? r.tree = some t) (hq : ∀ q ∈ what.queries, f.hasNode q) :
    what.perform r f = f.editAll r (what.requests f t r) := by
  have column (target : Target) {f : Forest} {t : Tree} (ht : f.tree? r.tree = some t) :=
    resolve_apply (r := r) ht target
  cases what with
  | select target aliasName => exact request_apply ht (column target ht) (.select · aliasName)
  | selectAll targets =>
      exact forM_apply (fun ht target => request_apply ht (column target ht) (.select · none)) ht
        targets
  | exclude target => exact request_apply ht (column target ht) fun c => .exclude c.column
  | excludeAll targets =>
      exact forM_apply
        (fun ht target => request_apply ht (column target ht) fun c => .exclude c.column) ht targets
  | aggregate function target options =>
      exact request_apply ht (resolveOption_apply ht target) fun c =>
        .aggregate (makeAggregate function c options)
  | group target => exact request_apply ht (column target ht) .group
  | groupAll targets =>
      exact forM_apply (fun ht target => request_apply ht (column target ht) .group) ht targets
  | having function target comparison value =>
      exact request_apply ht (resolveOption_apply ht target) fun c =>
        .having ⟨makeAggregate function c {}, comparison, value⟩
  | sort target options =>
      exact request_apply ht (column target ht) fun c => .sort ⟨c, options⟩
  | sortAll targets direction =>
      exact forM_apply
        (fun ht target => request_apply ht (column target ht) fun c => .sort ⟨c, { direction }⟩) ht
        targets
  | compare target comparison value =>
      exact request_apply ht (column target ht) fun c => .filter (.compare c comparison value)
  | inList target values negated =>
      exact request_apply ht (column target ht) fun c => .filter (.inList c values negated)
  | isNull target negated =>
      exact request_apply ht (column target ht) fun c => .filter (.isNull c negated)
  | inQuery target query negated =>
      obtain ⟨u, hu⟩ := Forest.tree?_of_hasNode (hq query (List.mem_singleton_self query))
      refine lookup_apply (column target ht) fun c => ?_
      exact lookup_apply (nest_apply hu) fun _ => update_edit ht (.filter (.inQuery c query negated))
  | existsQuery query negated =>
      obtain ⟨u, hu⟩ := Forest.tree?_of_hasNode (hq query (List.mem_singleton_self query))
      exact lookup_apply (nest_apply hu) fun _ => update_edit ht (.filter (.existsQuery query negated))
  | correlate target comparison outerEntity outerTarget =>
      refine lookup_apply (column target ht) fun c => ?_
      have found : (get : Build Forest) f = .ok f f := rfl
      rw [bind_apply, node_apply ht]
      simp only [bind_apply, found]
      cases (t.node r.node).outer.filter fun outer => f.isAlive outer.tree with
      | none => rfl
      | some outer =>
          exact lookup_apply (resolveFor_apply ht outerEntity outerTarget) fun outerColumn =>
            update_edit ht
              (.filter (.outer c comparison (f.node outer).aliasName outerColumn.column))
  | on property =>
      exact request_apply ht (column _ ht) fun c => .condition ⟨c.column, c.column⟩
  | onWith left right =>
      have htr : f.tree? (f.reference r).tree = some t := ht
      let next (left : ColumnRef) : Build Unit := resolve r right >>= fun right =>
        update r (Edit.condition ⟨left.column, right.column⟩).apply
      show (reference r >>= fun origin => node origin >>= fun n =>
        resolveFor r n.entity left >>= next) f = _
      rw [bind_apply, reference_apply ht]
      show (node (f.reference r) >>= fun n => resolveFor r n.entity left >>= next) f = _
      rw [bind_apply, node_apply htr]
      refine lookup_apply (resolveFor_apply ht _ left) fun left => ?_
      exact lookup_apply (column right ht) fun right =>
        update_edit ht (.condition ⟨left.column, right.column⟩)
  | fetch enabled => exact update_edit ht (.fetch enabled)
  | resultType name => exact update_edit ht (.resultType name)
  | mapType name => exact update_edit ht (.mapType name)
  | mapKey target => exact request_apply ht (column target ht) .mapKey
  | propertyAsAlias enabled => exact update_edit ht (.propertyAsAlias enabled)
  | limit n => exact update_edit ht (.limit n)
  | offset n => exact update_edit ht (.offset n)

end QueryForest
