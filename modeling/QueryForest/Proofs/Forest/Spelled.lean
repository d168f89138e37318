import QueryForest.Proofs.Forest.Effects
import QueryForest.Proofs.Forest.Unfetched
import QueryForest.Proofs.Mapping.Registration
import QueryForest.Proofs.Tree.Implicit

set_option autoImplicit false

/-!
# Columns asked for one by one

A node of an entity on which no results were asked for stands for all columns of the entity. When these are
asked for one by one, by their properties and in the order of their declaration, every call succeeds, and
all statements stay as they were (`render_spelled`): those of the node itself, those of which it is a
fetched join, and those in which it is nested. Each property finds the column that is listed with it, since
no registry maps a property twice.
-/

namespace QueryForest

open Sql (Select)

/-! ## What the calls make of a node -/

namespace Node

variable {n : Node} {columns : List Column}

/-- Items that differ from each other and from the results so far come behind these. -/
theorem foldl_select {items : List SelectItem} (nodup : (n.selected ++ items).Nodup) :
    items.foldl Node.select n = { n with selected := n.selected ++ items } := by
  induction items generalizing n with
  | nil => rw [List.append_nil]; rfl
  | cons item rest ih =>
      have new : item ∉ n.selected := fun mem =>
        (List.nodup_append.mp nodup).2.2 item mem item List.mem_cons_self rfl
      have first : n.select item = { n with selected := n.selected ++ [item] } := if_neg new
      rw [List.foldl_cons, first, ih (by simpa using nodup)]
      simp

/-- Asks for some columns by their properties, one after the other. -/
def askAll (columns : List Column) (n : Node) : Node := (columns.map spelling).foldl Node.select n

theorem selected_askAll (nodup : (columns.map (·.property)).Nodup) (unasked : n.selected = []) :
    (n.askAll columns).selected = columns.map spelling := by
  -- Items for different properties are different, also when these share a column.
  have items : (columns.map spelling).Nodup :=
    List.pairwise_map.mpr ((List.pairwise_map.mp nodup).imp fun other same =>
      other (Option.some.inj (ColumnRef.mk.inj (SelectItem.column.inj same).1).2))
  rw [askAll, foldl_select (by rwa [unasked]), unasked]
  rfl

/-- Nothing but the results changes. -/
theorem unasked_askAll : (n.askAll columns).unasked = n.unasked := by
  unfold askAll
  generalize columns.map spelling = items
  induction items generalizing n with
  | nil => rfl
  | cons item rest ih =>
      rw [List.foldl_cons, ih, Node.select]
      split <;> rfl

theorem source_askAll : (n.askAll columns).source = n.source :=
  (congrArg Node.source (@unasked_askAll n columns) :)

theorem result_askAll : (n.askAll columns).result = n.result :=
  (congrArg Node.result (@unasked_askAll n columns) :)

theorem hides_unasked : Node.Hides Node.unasked := ⟨fun _ => rfl, fun _ => rfl, fun _ => rfl⟩

end Node

/-- The calls that ask for some columns, by their properties. -/
def Change.spelling (columns : List Column) : List Change :=
  columns.map fun c => .select (.property c.property) none

namespace Forest

variable {f g : Forest} {r s : NodeRef} {t : Tree} {e : Entity} {columns : List Column}

/-- Edits that are all found are made one after the other. -/
theorem editAll_ok (edits : List Edit) (f : Forest) :
    f.editAll r (edits.map .ok) = .ok () (edits.foldl (·.edit r) f) := by
  induction edits generalizing f with
  | nil => rfl
  | cons e rest ih => exact ih (f.edit r e)

/-- Edits of one node come to one change of it. -/
theorem foldl_edit (edits : List Edit) (f : Forest) : edits.foldl (·.edit r) f
    = f.modifyTree r.tree (·.modify r.node fun n => edits.foldl (fun n e => e.apply n) n) := by
  induction edits generalizing f with
  | nil =>
      have same : (fun t : Tree => t.modify r.node id) = id := funext (Tree.modify_id · r.node)
      show f = f.modifyTree r.tree fun t => t.modify r.node id
      rw [same]
      exact (congrArg (Forest.mk · f.handles) (List.modify_id r.tree f.trees)).symm
  | cons e rest ih =>
      rw [List.foldl_cons, ih, edit_eq_modifyTree, modifyTree_modifyTree]
      refine congrArg (f.modifyTree r.tree) (funext fun t => ?_)
      exact t.modify_modify r.node e.apply _

/-- The calls that ask for columns by their properties succeed when each property finds its column. They
select the columns one after the other. -/
theorem run_spelling (ht : f.tree? r.tree = some t) (found : ∀ c ∈ columns,
      t.column r.node (.property c.property) = .ok ⟨c.name, some c.property⟩) :
    f.acceptsAll ((Change.spelling columns).map (.change r)) ∧
      f.run (changesOf r (Change.spelling columns))
        = f.modifyTree r.tree (·.modify r.node (Node.askAll columns)) := by
  let edits := columns.map fun c => Edit.select ⟨c.name, some c.property⟩ none
  let targets := columns.map fun c => Target.property c.property
  have requests : (Change.selectAll targets).requests f t r = edits.map .ok := by
    show (columns.map _).map _ = (columns.map _).map _
    rw [List.map_map, List.map_map]
    refine List.map_congr_left fun c mem => ?_
    show (t.column r.node (.property c.property)).map _ = _
    rw [found c mem]
    rfl
  have performed : (Change.selectAll targets).perform r f = .ok () (edits.foldl (·.edit r) f) := by
    rw [Change.perform_eq _ ht fun _ mem => absurd mem List.not_mem_nil, requests, editAll_ok]
  have singles : (Change.selectAll targets).singles = Change.spelling columns := List.map_map
  rw [Change.perform_singles, singles] at performed
  obtain ⟨accepted, reached⟩ := forM_ok_iff.mp performed
  have change : (fun n => edits.foldl (fun n e => e.apply n) n) = Node.askAll columns := by
    funext n
    simp only [edits, Node.askAll, List.foldl_map]
    rfl
  rw [foldl_edit, change] at reached
  exact ⟨accepted, reached⟩

/-! ## Statements -/

/-- The forests before and after the calls differ in what is asked for on one node. -/
theorem differAt_askAll (ht : f.tree? r.tree = some t) (columns : List Column) :
    f.DifferAt Node.unasked r (f.modifyTree r.tree (·.modify r.node (Node.askAll columns))) := by
  constructor
  · intro i other
    rw [tree?_modifyTree, if_neg other]
  · have same : Node.unasked ∘ Node.askAll columns = Node.unasked := funext fun _ => Node.unasked_askAll
    rw [tree?_modifyTree, if_pos rfl, ht]
    simp only [Option.map_some, Tree.modify_modify, same]

/-- The forest stays sound when columns are asked for. -/
theorem Sound.spelling (sound : f.Sound) (hr : f.hasNode r) (columns : List Column) :
    (f.run (changesOf r (Change.spelling columns))).Sound := by
  have there : ∀ what ∈ (Change.spelling columns).map (Call.change r), ∀ q ∈ what.nodes, f.hasNode q := by
    intro what mem q hq
    obtain ⟨change, spelt, rfl⟩ := List.mem_map.mp mem
    obtain ⟨c, -, rfl⟩ := List.mem_map.mp spelt
    exact List.mem_singleton.mp hq ▸ hr
  have admitted := sound.admits_calls there
  rw [List.map_map] at admitted
  exact (sound.run_steps _ admitted).sound sound

/-- **Asking for all columns of an entity, by their properties and in the order of their declaration, is
the same as asking for none.** On a node of a forest that callers can make, which stands for an entity
that its registry has a mapping of, and of which no results were asked for yet, all these calls succeed.
Every node of the forest has the same statement after them as before them, or fails with the same error,
whatever is excluded, however the results are named, and also when properties share a column. -/
theorem render_spelled (reachable : f.Reachable) (ht : f.tree? r.tree = some t)
    (small : r.node < t.nodes.length) (source : (t.node r.node).source = .entity e)
    (unasked : (t.node r.node).selected = []) (registered : t.mappings.Reachable)
    (known : t.mappings.columns? e = some columns) :
    f.acceptsAll ((Change.spelling columns).map (.change r)) ∧
      ∀ d s, f.hasNode s →
        (f.run (changesOf r (Change.spelling columns))).render d s = f.render d s := by
  have found (c : Column) (mem : c ∈ columns) :
      t.column r.node (.property c.property) = .ok ⟨c.name, some c.property⟩ := by
    unfold Tree.column Node.entity Tree.resolve
    rw [source]
    simp only [NodeSource.entityOf, registered.column?_of_mem known mem]
  let g := f.run (changesOf r (Change.spelling columns))
  obtain ⟨accepted, reached⟩ : _ ∧ g = _ := run_spelling ht found
  refine ⟨accepted, fun d s hs => ?_⟩
  have sound := reachable.sound
  have nodup := registered.proper.nodup known
  have differ : f.DifferAt Node.unasked r g := reached ▸ differAt_askAll ht columns
  have after : g.tree? r.tree = some (t.modify r.node (Node.askAll columns)) := by
    rw [reached, tree?_modifyTree, if_pos rfl, ht]
    rfl
  have updated : f.Updated r ((f.node r).askAll columns) g := by
    rw [reached, modifyTree_eq ht]
    exact .modify ht small rfl
  -- In both forests the node brings the same into a query as if nothing was asked for on it.
  have part (nested : NodeRef → Except QueryError Select) (isRoot : Bool) (u : Tree)
      (hu : f.tree? r.tree = some u ∨ g.tree? r.tree = some u) :
      u.part nested (u.node r.node).unasked isRoot = u.part nested (u.node r.node) isRoot := by
    rcases hu with hu | hu
    · obtain rfl := Option.some.inj (ht.symm.trans hu)
      exact Tree.part_unasked source known (Or.inl unasked) isRoot
    · obtain rfl := Option.some.inj (after.symm.trans hu)
      rw [t.node_modify_self small]
      exact Tree.part_unasked (Node.source_askAll.trans source) known
        (Or.inr (Node.selected_askAll nodup unasked)) isRoot
  have select : g.select s = f.select s :=
    sound.select_hidden (sound.spelling (hasNode_iff.mpr ⟨t, ht, small⟩) columns) differ
      Node.hides_unasked (fun nested u hu => part nested false u hu) hs
      fun _ nested u hu => ⟨part nested true u hu, rfl, rfl⟩
  have result : (g.node s).result = (f.node s).result := by
    by_cases here : s = r
    · rw [here, updated.node_self, Node.result_askAll]
    · rw [updated.node_of_ne here]
  show g.render d s = f.render d s
  unfold render
  rw [select, result]

/-- The columns of a customer. Two properties are kept in one column. -/
def customerColumns : List Column :=
  [⟨"id", "id", .long⟩, ⟨"name", "name", .string⟩, ⟨"label", "name", .string⟩, ⟨"note", "note", .string⟩]

/-- A registry that knows customers. -/
def customerRegistry : Registry :=
  Registry.empty.offer
    (⟨"customer", "Customer", "customers"⟩, ⟨"Customer", "customers", customerColumns⟩)

/-- An order with a customer who is fetched without a list of results. The notes are excluded, and the
results are named by their properties. -/
def customers : List Action :=
  [.call (.root customerRegistry ⟨"order", "Order", "orders"⟩ (some "o") { propertyAsAlias := true }),
    .call (.change ⟨0, 0⟩ (.select (.column "id") none)),
    .call (.join ⟨0, 0⟩ ⟨"customer", "Customer", "customers"⟩ .inner (some "c")),
    .call (.change ⟨0, 1⟩ (.onWith (.column "customer_id") (.property "id"))),
    .call (.change ⟨0, 1⟩ (.fetch true)),
    .call (.change ⟨0, 1⟩ (.exclude (.property "note"))),
    .call (.attach ⟨0, 1⟩)]

theorem render_spelled_customers :
    (∃ s, (empty.run customers).select ⟨0, 0⟩ = .ok s ∧ s.columns = [.column "o" "id",
      .aliased (.column "c" "id") "id", .aliased (.column "c" "name") "name",
      .aliased (.column "c" "name") "label"]) ∧
    ((empty.run customers).run (changesOf ⟨0, 1⟩ (Change.spelling customerColumns))).render
      .postgres ⟨0, 0⟩ = (empty.run customers).render .postgres ⟨0, 0⟩ := by
  refine ⟨⟨_, rfl, rfl⟩, ?_⟩
  have registered : customerRegistry.Reachable := ⟨[_], rfl⟩
  have told := @render_spelled (empty.run customers) ⟨0, 1⟩ _ ⟨"customer", "Customer", "customers"⟩
    customerColumns ⟨customers, by decide, rfl⟩ rfl (by decide) rfl rfl registered (by decide)
  exact told.2 .postgres ⟨0, 0⟩ (by decide)

end Forest

end QueryForest
