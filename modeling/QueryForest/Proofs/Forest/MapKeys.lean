import QueryForest.Proofs.Forest.Actions
import QueryForest.Proofs.Forest.Projection
import QueryForest.Proofs.Tree.OutputNames

set_option autoImplicit false

/-!
# The keys of rows

A call for the key of the rows records a name at once, by the setting of its node at that time, and the name
stays until the next such call (`Sound.run_mapKey`). The columns get their names only when the statement is
written. So the key names the column that it was asked for when the setting is the same at both times, and
otherwise only when it makes no difference (`mapKey_run`).
-/

namespace QueryForest

open Sql (Dialect Select Statement)

/-- Only one edit changes the key. -/
theorem Edit.mapKey_apply {e : Edit} (other : ∀ c, e ≠ .mapKey c) (n : Node) :
    (e.apply n).result.mapKey = n.result.mapKey := by
  cases e with
  | mapKey c => exact absurd rfl (other c)
  | select => simp only [apply, Node.select]; split <;> rfl
  | exclude => simp only [apply, Node.exclude]; split <;> rfl
  | _ => rfl

/-- Only a call for a key asks for this edit. -/
theorem Change.Asks.of_mapKey {f : Forest} {t : Tree} {r : NodeRef} {what : Change} {c : ColumnRef}
    (asks : what.Asks f t r (.mapKey c)) : ∃ target, what = .mapKey target := by
  cases asks with
  | mapKey found => exact ⟨_, rfl⟩

namespace Forest

variable {f : Forest} {r : NodeRef} {t : Tree} {c : ColumnRef}

/-- **The key of a node stays until the next call for a key on this node.** -/
theorem Sound.run_mapKey (h : f.Sound) (hr : f.hasNode r) {later : List Action}
    (admitted : f.admits later) (last : ∀ target, .call (.change r (.mapKey target)) ∉ later) :
    ((f.run later).node r).result.mapKey = (f.node r).result.mapKey := by
  refine h.run_spares (p := fun n => n.result.mapKey) admitted hr fun a ha => ?_
  refine Action.spares_of_asks (fun _ _ => rfl) fun what call g u e asks n => ?_
  refine Edit.mapKey_apply (fun c same => ?_) n
  obtain ⟨target, rfl⟩ := (same ▸ asks).of_mapKey
  exact last target (call ▸ ha)

/-- A call for a key records the name that the column has by the setting of its node. -/
theorem after_mapKey (ht : f.tree? r.tree = some t) (hr : f.hasNode r) {target : Target}
    (found : t.column r.node target = .ok c) :
    ((f.after (.call (.change r (.mapKey target)))).node r).result.mapKey
      = some (c.resultName (f.node r).result.propertyAsAlias) := by
  have performed := (Change.mapKey target).perform_eq ht fun q hq => absurd hq List.not_mem_nil
  rw [Change.requests, found] at performed
  have made : (Call.change r (.mapKey target)).perform f = .ok r (f.edit r (.mapKey c)) :=
    Build.then_ok r performed
  have edited : (f.edit r (.mapKey c)).node r = (f.node r).setMapKey c :=
    (updated_foldl_edit hr [.mapKey c]).node_self
  rw [after_ok made, edited]
  rfl

variable {before later : List Action} {target : Target}

/-- **After a run the key of a node is that of the last call for a key, by the setting of its time.** -/
theorem key_run (admitted : empty.admits (before ++ .call (.change r (.mapKey target)) :: later))
    (last : ∀ target, .call (.change r (.mapKey target)) ∉ later)
    (run : empty.run (before ++ .call (.change r (.mapKey target)) :: later) = f)
    (ht : f.tree? r.tree = some t) (found : t.column r.node target = .ok c) :
    f.hasNode r ∧ (f.node r).result.mapKey
      = some (c.resultName ((empty.run before).node r).result.propertyAsAlias) := by
  let call : Action := .call (.change r (.mapKey target))
  rw [admits_append, Bool.and_eq_true] at admitted
  obtain ⟨admittedBefore, admittedLater⟩ := admitted
  obtain ⟨there, admittedRest⟩ := admits_cons.mp admittedLater
  have sound : (empty.run before).Sound := Reachable.sound ⟨before, admittedBefore, rfl⟩
  have enclosed : (empty.run before).Enclosed := Reachable.enclosed ⟨before, admittedBefore, rfl⟩
  have hr : (empty.run before).hasNode r := there r List.mem_cons_self
  have first := sound.after_steps call there
  have rest := (first.sound sound).run_steps later admittedRest
  have reached : ((empty.run before).after call).run later = f := by
    rw [← run, run_append]
    rfl
  have steps := reached ▸ first.trans rest
  -- The target named the same column when the key was asked for.
  obtain ⟨u, hu, small⟩ := hasNode_iff.mp hr
  have same : t.column r.node = u.column r.node :=
    congrArg Surroundings.column (steps.surroundings sound enclosed hu ht small)
  refine ⟨steps.kept.hasNode hr, ?_⟩
  rw [← reached, (first.sound sound).run_mapKey (first.kept.hasNode hr) admittedRest last]
  exact after_mapKey hu hr (same ▸ found)

/-- **The key that was asked for by a property is recorded by the setting at the time of the last call for a
key, and the column of the property, when it is selected without an alias and not excluded, goes by the name
that the setting gives it when the statement is written. They agree just when the setting is the same at
both times or the property has the name of its column.** -/
theorem mapKey_run {property : String}
    (admitted : empty.admits (before ++ .call (.change r (.mapKey (.property property))) :: later))
    (last : ∀ target, .call (.change r (.mapKey target)) ∉ later)
    (run : empty.run (before ++ .call (.change r (.mapKey (.property property))) :: later) = f)
    (ht : f.tree? r.tree = some t)
    (plain : t.SelectsPlainly r.node
      (changesIn (before ++ .call (.change r (.mapKey (.property property))) :: later) r.tree r.node)
      property c)
    {d : Dialect} {statement : Statement} (made : f.render d r = .ok statement) :
    ∃ s item, f.select r = .ok s ∧ item ∈ s.columns ∧ item.IsColumnOf (t.aliasOf r.node) c.column ∧
      item.outputName? = some (c.resultName (f.node r).result.propertyAsAlias) ∧
      statement.mapKey = some (c.resultName ((empty.run before).node r).result.propertyAsAlias) ∧
      (statement.mapKey = item.outputName? ↔
        ((empty.run before).node r).result.propertyAsAlias = (f.node r).result.propertyAsAlias ∨
          property = c.column) := by
  have sound : f.Sound := Reachable.sound ⟨_, admitted, run⟩
  obtain ⟨hr, key⟩ := key_run admitted last run ht plain.found
  obtain ⟨s, selected, written⟩ := Outcome.bind_ok made
  obtain rfl := Except.ok.inj written
  have selectedInTree := selected
  rw [sound.select_eq ht] at selectedInTree
  have item := (sound.tree r.tree t ht).select_plain (lt_of_hasNode ht hr)
    (fun v hv => told_run Node.collects_faithful admitted (run ▸ ht) hv) selectedInTree plain
  have name := t.outputName?_plainExpr r.node c
  rw [← node_eq ht] at name
  refine ⟨s, t.plainExpr r.node c, selected, item, t.plainExpr_isColumnOf r.node c, name, key, ?_⟩
  show (f.node r).result.mapKey = _ ↔ _
  rw [key, name, Option.some.injEq]
  exact ColumnRef.resultName_eq_iff (Tree.property_of_column plain.found)

/-- Orders with their amount. Properties name the results when this begins. -/
def amounts : List Action :=
  [.call (.root orders ⟨"order", "Order", "orders"⟩ (some "o") { propertyAsAlias := true }),
    .call (.change ⟨0, 0⟩ (.select (.property "amount") none))]

/-- The amount is the key. -/
def byAmount : Action := .call (.change ⟨0, 0⟩ (.mapKey (.property "amount")))

/-- Properties do not name the results any more, and then they do again. -/
def toggled : List Action :=
  [.call (.change ⟨0, 0⟩ (.propertyAsAlias false)), .call (.change ⟨0, 0⟩ (.propertyAsAlias true))]

theorem mapKey_run_toggled : ∃ s statement, (empty.run (amounts ++ byAmount :: toggled)).select ⟨0, 0⟩
      = .ok s ∧ (empty.run (amounts ++ byAmount :: toggled)).render .postgres ⟨0, 0⟩ = .ok statement ∧
    statement.mapKey = some "amount" ∧ ∃ item ∈ s.columns, item.outputName? = some "amount" := by
  obtain ⟨statement, made⟩ : ∃ statement,
      (empty.run (amounts ++ byAmount :: toggled)).render .postgres ⟨0, 0⟩ = .ok statement := ⟨_, rfl⟩
  let t := ((empty.run (amounts ++ byAmount :: toggled)).tree? 0).get (by decide)
  have plain : t.SelectsPlainly 0 (changesIn (amounts ++ byAmount :: toggled) 0 0) "amount"
      ⟨"total", some "amount"⟩ := ⟨List.Mem.head _, rfl, by decide⟩
  have last (target : Target) : .call (.change ⟨0, 0⟩ (.mapKey target)) ∉ toggled := by
    simp [toggled]
  obtain ⟨s, item, selected, mem, -, name, -, same⟩ :=
    @mapKey_run _ ⟨0, 0⟩ t _ amounts toggled "amount" (by decide) last rfl rfl plain _ _ made
  have agree : statement.mapKey = item.outputName? := same.mpr (Or.inl (by decide))
  exact ⟨s, statement, selected, made, agree.trans name, item, mem, name⟩

/-- The key is asked for before properties name the results. -/
def retitled : List Action :=
  [.call (.root orders ⟨"order", "Order", "orders"⟩ (some "o") {}), byAmount,
    .call (.change ⟨0, 0⟩ (.propertyAsAlias true)),
    .call (.change ⟨0, 0⟩ (.select (.property "amount") none))]

/-- No column goes by the key. -/
theorem not_key_retitled : empty.admits retitled ∧ ∃ s statement,
    (empty.run retitled).select ⟨0, 0⟩ = .ok s ∧
    (empty.run retitled).render .postgres ⟨0, 0⟩ = .ok statement ∧
    s.columns = [.aliased (.column "o" "total") "amount"] ∧ statement.mapKey = some "total" ∧
    ∀ item ∈ s.columns, item.outputName? ≠ statement.mapKey := by
  refine ⟨by decide, _, _, rfl, rfl, rfl, rfl, fun item mem => ?_⟩
  rw [List.mem_singleton.mp mem]
  exact of_decide_eq_true rfl

end Forest

end QueryForest
