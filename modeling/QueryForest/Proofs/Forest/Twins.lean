import QueryForest.Forest.Select
import QueryForest.Proofs.Forest.Erasure
import QueryForest.Proofs.Forest.Parameters

set_option autoImplicit false

/-!
# Runs that differ in their values

A call on erased forests mirrors a call when it does to them what the call does to forests, and ends
in the same way. Calls are made of small steps, and mirroring passes from the steps to the calls
(`Mirrors.bind`): an erased call mirrors the call (`Call.mirrors`), and an erased run the run
(`run_erased`). Two runs that only differ in their values are mirrored by one and the same run. So
no answer to a call, and no text of a statement, depends on a value (`values_unseen`).
-/

namespace QueryForest

open Sql (Dialect JoinKind Output Select Statement gapped gapped_erased length_valuesOf valuesOf
  writeAll_eq)

namespace Build

/-- Whether a call does to erased forests what another one does to forests, and gives what the other
one gives, seen through `m`. -/
def Mirrors {α β : Type} (m : α → β) (x : Build α) (y : Build β) : Prop :=
  ∀ f : Forest, y f.erased = match x f with
    | .ok a g => .ok (m a) g.erased
    | .error e g => .error e g.erased

namespace Mirrors

variable {α β α' β' : Type} {m : α → α'} {k : β → β'}

theorem bind {x : Build α} {y : Build α'} {g : α → Build β} {g' : α' → Build β'}
    (first : Mirrors m x y) (next : ∀ a, Mirrors k (g a) (g' (m a))) :
    Mirrors k (x >>= g) (y >>= g') := by
  intro f
  rw [bind_apply, bind_apply, first f]
  cases x f with
  | error e f' => rfl
  | ok a f' => exact next a f'

theorem pure (a : α) : Mirrors m (pure a) (pure (m a)) := fun _ => rfl

theorem throw (e : QueryError) : Mirrors m (throw e) (throw e) := fun _ => rfl

theorem get : Mirrors Forest.erased get get := fun _ => rfl

theorem ofExcept {x : Except QueryError α} {y : Except QueryError α'} (same : y = x.map m) :
    Mirrors m (ofExcept x) (ofExcept y) := by
  subst same
  intro f
  cases x <;> rfl

/-- A change of the forest. -/
theorem modifyGet {change change' : Forest → α × Forest}
    (same : ∀ f : Forest, change' f.erased = ((change f).1, (change f).2.erased)) :
    Mirrors id (modifyGet change : Build α) (modifyGet change') := by
  intro f
  show (EStateM.Result.ok (change' f.erased).1 (change' f.erased).2 : EStateM.Result QueryError _ _) = _
  rw [same]
  rfl

variable (r : NodeRef)

theorem tree : Mirrors Tree.erased (tree r) (tree r) :=
  get.bind fun f => by
    rw [f.tree?_erased]
    cases f.tree? r.tree with
    | none => exact throw (.foreignNode "")
    | some t => exact pure t

theorem node : Mirrors Node.erased (node r) (node r) :=
  (tree r).bind fun t => by
    rw [t.node_erased]
    exact pure (t.node r.node)

theorem setTree (i : TreeId) (t : Tree) : Mirrors id (setTree i t) (setTree i t.erased) :=
  modifyGet fun f => congrArg (Prod.mk ()) (f.setTree_erased i t)

/-- A change of the tree, in place. -/
theorem write {change : EStateM QueryError Tree α} {change' : EStateM QueryError Tree α'}
    (same : ∀ t : Tree, change' t.erased = match change t with
      | .ok a t' => .ok (m a) t'.erased
      | .error e t' => .error e t'.erased) : Mirrors m (write r change) (write r change') :=
  (tree r).bind fun t => by
    rw [same]
    cases change t with
    | ok a t' => exact (setTree r.tree t').bind fun _ => pure a
    | error e t' => exact (setTree r.tree t').bind fun _ => throw e

theorem update {change change' : Node → Node}
    (same : ∀ n : Node, change' n.erased = (change n).erased) :
    Mirrors id (update r change) (update r change') :=
  (tree r).bind fun t => by
    rw [t.modify_erased r.node same]
    exact setTree r.tree (t.modify r.node change)

theorem edit (e : Edit) : Mirrors id (Build.update r e.apply) (Build.update r e.erased.apply) :=
  update r e.apply_erased

theorem resolveFor (entity : Entity) (target : Target) :
    Mirrors id (resolveFor r entity target) (resolveFor r entity target) :=
  (tree r).bind fun t => ofExcept (by rw [t.resolve_erased, Except.map_id, id_eq])

theorem resolve (target : Target) : Mirrors id (resolve r target) (resolve r target) :=
  (node r).bind fun n => resolveFor r n.entity target

theorem resolveOption (target : Option Target) :
    Mirrors id (resolveOption r target) (resolveOption r target) := by
  cases target with
  | none => exact pure none
  | some target => exact (resolve r target).bind fun c => pure (some c)

/-! ## Roots, branches and joins -/

theorem root (mappings : Registry) (entity : Entity) (aliasName : Option String)
    (result : ResultSettings) : Mirrors id (root mappings entity aliasName result)
      (root mappings entity aliasName result) :=
  modifyGet fun f => by
    rw [← Tree.ofRoot_erased, f.addTree_erased, Tree.ofRoot_erased]

theorem subQuery (entity : Entity) (aliasName : Option String) :
    Mirrors id (subQuery r entity aliasName) (subQuery r entity aliasName) :=
  (tree r).bind fun t => modifyGet fun f => by
    rw [t.node_erased, ← Tree.ofRoot_erased, f.addTree_erased]
    rfl

theorem branch : Mirrors id (branch r) (branch r) :=
  (tree r).bind fun t => by
    rw [t.addBranch_erased]
    exact (setTree r.tree _).bind fun _ => pure _

theorem nest (query : NodeRef) : Mirrors id (nest r query) (nest r query) :=
  get.bind fun f => by
    rw [f.contains_erased]
    split
    · exact (node query).bind fun n => throw (.cycle n.aliasName)
    · exact pure ()

theorem addJoin (source : NodeSource) (kind : JoinKind) (aliasName : Option String) :
    Mirrors id (addJoin r source kind aliasName) (addJoin r source kind aliasName) := by
  have added : Mirrors id (Build.write r (Tree.addingJoin r.node source kind aliasName))
      (Build.write r (Tree.addingJoin r.node source kind aliasName)) := by
    refine write r fun t => ?_
    rw [Tree.addingJoin_eq, Tree.addingJoin_eq, t.addJoin_erased]
    cases t.addJoin r.node source kind aliasName <;> rfl
  exact added.bind fun _ => pure _

theorem joinQuery (query : NodeRef) (kind : JoinKind) (aliasName : Option String) :
    Mirrors id (joinQuery r query kind aliasName) (joinQuery r query kind aliasName) :=
  (nest r query).bind fun _ => (node query).bind fun n =>
    addJoin r (.query query n.entity) kind aliasName

theorem attachTo (parent : NodeRef) : Mirrors id (attachTo r parent) (attachTo r parent) := by
  unfold Build.attachTo
  split
  · exact (node parent).bind fun n => throw (.foreignNode n.aliasName)
  · refine write r fun t => ?_
    rw [Tree.attaching_eq, Tree.attaching_eq, t.attach_erased]
    cases t.attach r.node parent.node <;> rfl

theorem reference : Mirrors id (reference r) (reference r) :=
  (node r).bind fun _ => pure _

theorem attach : Mirrors id (attach r) (attach r) :=
  (reference r).bind fun parent => attachTo r parent

/-! ## Changes -/

/-- Looking a column up and making the edit that comes out of it. -/
theorem lookup (target : Target) (edit : ColumnRef → Edit) :
    Mirrors id (Build.resolve r target >>= fun c => Build.update r (edit c).apply)
      (Build.resolve r target >>= fun c => Build.update r (edit c).erased.apply) :=
  (resolve r target).bind fun c => Mirrors.edit r (edit c)

theorem forM {op : Target → Build Unit} (each : ∀ target, Mirrors id (op target) (op target))
    (targets : List Target) : Mirrors id (targets.forM op) (targets.forM op) := by
  induction targets with
  | nil => exact pure ()
  | cons target rest ih => exact (each target).bind fun _ => ih

end Mirrors

end Build

open Build.Mirrors in
theorem Change.mirrors (r : NodeRef) (what : Change) :
    Build.Mirrors id (what.perform r) (what.erased.perform r) := by
  cases what with
  | select target aliasName => exact lookup r target (.select · aliasName)
  | selectAll targets => exact forM (fun target => lookup r target (.select · none)) targets
  | exclude target => exact lookup r target fun c => .exclude c.column
  | excludeAll targets =>
      exact forM (fun target => lookup r target fun c => .exclude c.column) targets
  | aggregate function target options =>
      exact (resolveOption r target).bind fun c =>
        edit r (.aggregate (Build.makeAggregate function c options))
  | group target => exact lookup r target .group
  | groupAll targets => exact forM (fun target => lookup r target .group) targets
  | having function target comparison value =>
      exact (resolveOption r target).bind fun c =>
        edit r (.having ⟨Build.makeAggregate function c {}, comparison, value⟩)
  | sort target options => exact lookup r target fun c => .sort ⟨c, options⟩
  | sortAll targets direction =>
      exact forM (fun target => lookup r target fun c => .sort ⟨c, { direction }⟩) targets
  | compare target comparison value =>
      exact lookup r target fun c => .filter (.compare c comparison value)
  | inList target values negated =>
      exact lookup r target fun c => .filter (.inList c values negated)
  | isNull target negated => exact lookup r target fun c => .filter (.isNull c negated)
  | inQuery target query negated =>
      exact (resolve r target).bind fun c => (nest r query).bind fun _ =>
        edit r (.filter (.inQuery c query negated))
  | existsQuery query negated =>
      exact (nest r query).bind fun _ => edit r (.filter (.existsQuery query negated))
  | correlate target comparison outerEntity outerTarget =>
      refine (resolve r target).bind fun c => (node r).bind fun n => get.bind fun f => ?_
      have alive : (fun outer : NodeRef => f.erased.isAlive outer.tree)
          = fun outer => f.isAlive outer.tree := funext fun outer => f.isAlive_erased outer.tree
      rw [alive, Node.outer_erased]
      cases n.outer.filter fun outer => f.isAlive outer.tree with
      | none => exact throw (.missingReference n.aliasName .noEnclosingQuery)
      | some outer =>
          refine (resolveFor r outerEntity outerTarget).bind fun outerColumn => ?_
          rw [f.node_erased]
          exact edit r (.filter (.outer c comparison (f.node outer).aliasName outerColumn.column))
  | on property =>
      exact lookup r (.property property) fun c => .condition ⟨c.column, c.column⟩
  | onWith left right =>
      exact (reference r).bind fun origin => (node origin).bind fun n =>
        (resolveFor r n.entity left).bind fun left => (resolve r right).bind fun right =>
          edit r (.condition ⟨left.column, right.column⟩)
  | fetch enabled => exact edit r (.fetch enabled)
  | resultType name => exact edit r (.resultType name)
  | mapType name => exact edit r (.mapType name)
  | mapKey target => exact lookup r target .mapKey
  | propertyAsAlias enabled => exact edit r (.propertyAsAlias enabled)
  | limit n => exact edit r (.limit n)
  | offset n => exact edit r (.offset n)

/-- **An erased call mirrors the call.** -/
theorem Call.mirrors (what : Call) : Build.Mirrors id what.perform what.erased.perform := by
  cases what with
  | root mappings entity aliasName result =>
      exact Build.Mirrors.root mappings entity aliasName result
  | subQuery outer entity aliasName => exact Build.Mirrors.subQuery outer entity aliasName
  | branch r => exact Build.Mirrors.branch r
  | join r entity kind aliasName => exact Build.Mirrors.addJoin r (.entity entity) kind aliasName
  | joinQuery r query kind aliasName => exact Build.Mirrors.joinQuery r query kind aliasName
  | attach r => exact (Build.Mirrors.attach r).bind fun _ => Build.Mirrors.pure r
  | attachTo r parent => exact (Build.Mirrors.attachTo r parent).bind fun _ => Build.Mirrors.pure r
  | change r what => exact (what.mirrors r).bind fun _ => Build.Mirrors.pure r

namespace Forest

/-! ## Runs -/

/-- The answer to a call: the node that it gives, or its error. -/
def answer (f : Forest) (what : Call) : Except QueryError NodeRef :=
  match what.perform f with
  | .ok r _ => .ok r
  | .error e _ => .error e

/-- The answers to the calls of a run, in their order. -/
def answers (f : Forest) : List Action → List (Except QueryError NodeRef)
  | [] => []
  | .call what :: rest => f.answer what :: (f.after (.call what)).answers rest
  | a :: rest => (f.after a).answers rest

variable (f : Forest)

theorem answer_erased (what : Call) : f.erased.answer what.erased = f.answer what := by
  unfold answer
  rw [what.mirrors f]
  cases what.perform f <;> rfl

theorem after_erased (a : Action) : f.erased.after a.erased = (f.after a).erased := by
  cases a with
  | call what =>
      show (match what.erased.perform f.erased with
        | .ok _ g => g
        | .error _ g => g) = (match what.perform f with
        | .ok _ g => g
        | .error _ g => g).erased
      rw [what.mirrors f]
      cases what.perform f <;> rfl
  | hold name r => rfl
  | release name => rfl

theorem run_erased (actions : List Action) :
    f.erased.run (actions.map Action.erased) = (f.run actions).erased := by
  induction actions generalizing f with
  | nil => rfl
  | cons a rest ih =>
      show (f.erased.after a.erased).run (rest.map Action.erased) = ((f.after a).run rest).erased
      rw [after_erased, ih]

theorem answers_erased (actions : List Action) :
    f.erased.answers (actions.map Action.erased) = f.answers actions := by
  induction actions generalizing f with
  | nil => rfl
  | cons a rest ih =>
      have later : (f.erased.after a.erased).answers (rest.map Action.erased)
          = (f.after a).answers rest := by
        rw [after_erased, ih]
      cases a with
      | call what => exact congrArg₂ List.cons (f.answer_erased what) later
      | hold name r => exact later
      | release name => exact later

theorem admits_erased (actions : List Action) :
    f.erased.admits (actions.map Action.erased) = f.admits actions := by
  induction actions generalizing f with
  | nil => rfl
  | cons a rest ih =>
      rw [List.map_cons, admits, admits, Action.nodes_erased, after_erased, ih,
        funext f.hasNode_erased]

/-! ## Statements -/

theorem selectWithin_erased (depth : Nat) (r : NodeRef) :
    f.erased.selectWithin depth r = (f.selectWithin depth r).map Select.erased := by
  induction depth generalizing r with
  | zero =>
      rw [selectWithin, selectWithin, node_erased]
      rfl
  | succ depth ih =>
      rw [selectWithin, selectWithin, tree?_erased]
      cases f.tree? r.tree with
      | none =>
          simp only [node_erased]
          rfl
      | some t => exact t.select_erased ih r.node

theorem select_erased (r : NodeRef) : f.erased.select r = (f.select r).map Select.erased := by
  rw [select, trees_erased, selectWithin_erased, select]

/-- Whether two results of writing a statement only differ in the values of the parameters. -/
inductive Alike : Except QueryError Statement → Except QueryError Statement → Prop
  | error (e : QueryError) : Alike (.error e) (.error e)
  | statement {s s' : Statement} (sql : s.sql = s'.sql)
      (count : s.params.length = s'.params.length) (resultType : s.resultType = s'.resultType)
      (mapKey : s.mapKey = s'.mapKey) (mapType : s.mapType = s'.mapType) : Alike (.ok s) (.ok s')

variable {f} {g : Forest}

/-- The statements of queries that only differ in their values only differ in the parameters. -/
theorem writeAll_alike {s s' : Select} (same : s.erased = s'.erased) (d : Dialect) :
    (Output.writeAll d {} (s.pieces d)).sql = (Output.writeAll d {} (s'.pieces d)).sql ∧
      (Output.writeAll d {} (s.pieces d)).params.length
        = (Output.writeAll d {} (s'.pieces d)).params.length := by
  have gaps : gapped (s.pieces d) = gapped (s'.pieces d) := by
    rw [s.pieces_eq, s'.pieces_eq, ← gapped_erased, ← s.tokens_erased, same, s'.tokens_erased,
      gapped_erased]
  constructor
  · rw [writeAll_eq, writeAll_eq, gaps]
  · rw [writeAll_eq, writeAll_eq]
    show (valuesOf _).length = (valuesOf _).length
    rw [length_valuesOf, length_valuesOf, gaps]

/-- Forests that only differ in their values have the same statements, but for the parameters. -/
theorem render_alike (alike : f.erased = g.erased) (d : Dialect) (r : NodeRef) :
    Alike (f.render d r) (g.render d r) := by
  have selects : (f.select r).map Select.erased = (g.select r).map Select.erased := by
    rw [← select_erased, ← select_erased, alike]
  have results : (f.node r).result = (g.node r).result := by
    show (f.node r).erased.result = (g.node r).erased.result
    rw [← node_erased, ← node_erased, alike]
  unfold render
  rcases Outcome.map_eq_map selects with ⟨e, hf, hg⟩ | ⟨s, s', hf, hg, same⟩
  · rw [hf, hg]
    exact Alike.error e
  · rw [hf, hg, results]
    obtain ⟨sql, count⟩ := writeAll_alike same d
    exact Alike.statement sql count rfl rfl rfl

/-- **Two runs that only differ in the values which they bind are alike to the caller: their calls
have the same answers, and each statement of the one is that of the other, or the same error, but
for the values of its parameters.** -/
theorem values_unseen {actions actions' : List Action}
    (alike : actions.map Action.erased = actions'.map Action.erased) :
    empty.admits actions = empty.admits actions' ∧
    empty.answers actions = empty.answers actions' ∧
    ∀ (d : Dialect) (r : NodeRef),
      Alike ((empty.run actions).render d r) ((empty.run actions').render d r) := by
  refine ⟨?_, ?_, fun d r => render_alike ?_ d r⟩
  · rw [← admits_erased, alike, admits_erased]
  · rw [← answers_erased, alike, answers_erased]
  · rw [← run_erased, alike, run_erased]

/-- The run `priced` with other values. -/
def repriced : List Action :=
  [.call (.root {} ⟨"order", "Order", "orders"⟩ (some "o") {}),
    .call (.subQuery ⟨0, 0⟩ ⟨"item", "Item", "items"⟩ (some "i")),
    .call (.change ⟨1, 0⟩ (.select (.column "order_id") none)),
    .call (.change ⟨1, 0⟩ (.compare (.column "price") .lt (.string "0' OR '1' = '1"))),
    .call (.change ⟨0, 0⟩ (.select (.column "id") none)),
    .call (.change ⟨0, 0⟩ (.inQuery (.column "id") ⟨1, 0⟩ false)),
    .call (.change ⟨0, 0⟩ (.compare (.column "total") .gt .null))]

theorem values_unseen_priced : priced.map Action.erased = repriced.map Action.erased ∧
    Alike ((empty.run priced).render .mysql ⟨0, 0⟩) ((empty.run repriced).render .mysql ⟨0, 0⟩) :=
  have alike : priced.map Action.erased = repriced.map Action.erased := rfl
  ⟨alike, (values_unseen alike).2.2 .mysql ⟨0, 0⟩⟩

end Forest

end QueryForest
