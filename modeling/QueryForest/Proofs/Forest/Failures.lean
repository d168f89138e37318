import QueryForest.Proofs.Forest.Permanence

set_option autoImplicit false

/-!
# Calls that fail

A call for one column looks everything up before it changes anything, and one for a join refuses
nothing any more once it has written to the tree (`Tree.addingJoin_eq`, `Tree.attaching_eq`). So
both leave the forest as it was when they fail, with the aliases, their counters and the links of
its trees. A call for several columns is nothing but the calls for each of them, one after the other
up to the first that fails (`Change.perform_singles`), and leaves behind what the single calls
before the failing one have done (`failed_call`).
-/

namespace QueryForest

/-! ## Single calls -/

/-- The changes that a change is made of: one for each of several columns, and otherwise the change
alone. -/
def Change.singles : Change → List Change
  | selectAll targets => targets.map (select · none)
  | excludeAll targets => targets.map exclude
  | groupAll targets => targets.map group
  | sortAll targets direction => targets.map (sort · { direction })
  | what => [what]

/-- The calls that a call is made of. -/
def Call.singles : Call → List Call
  | change node what => what.singles.map (change node)
  | what => [what]

namespace Build

theorem forM_cons_apply {α : Type} (op : α → Build Unit) (a : α) (rest : List α) (f : Forest) :
    (a :: rest).forM op f = match op a f with
      | .ok _ g => rest.forM op g
      | .error e g => .error e g := by
  show (op a >>= fun _ => rest.forM op) f = _
  rw [bind_apply]
  cases op a f <;> rfl

theorem forM_map {α β : Type} (op : β → Build Unit) (m : α → β) (l : List α) :
    (l.map m).forM op = l.forM fun a => op (m a) := by
  funext f
  induction l generalizing f with
  | nil => rfl
  | cons a rest ih =>
      rw [List.map_cons, forM_cons_apply, forM_cons_apply]
      cases op (m a) f with
      | ok _ g => exact ih g
      | error e g => rfl

end Build

/-- **A change is performed by performing the changes it is made of**, one after the other up to the
first that fails. -/
theorem Change.perform_singles (what : Change) (r : NodeRef) :
    what.perform r = what.singles.forM (perform r) := by
  have single (c : Change) : c.perform r = [c].forM (perform r) := by
    funext f
    rw [Build.forM_cons_apply]
    cases c.perform r f <;> rfl
  cases what with
  | selectAll targets => exact (Build.forM_map (perform r) (select · none) targets).symm
  | excludeAll targets => exact (Build.forM_map (perform r) exclude targets).symm
  | groupAll targets => exact (Build.forM_map (perform r) group targets).symm
  | sortAll targets direction =>
      exact (Build.forM_map (perform r) (sort · { direction }) targets).symm
  | _ => exact single _

/-- What a change is made of is made of itself alone. -/
theorem Change.singles_single {what c : Change} (h : c ∈ what.singles) : c.singles = [c] := by
  cases what with
  | selectAll | excludeAll | groupAll | sortAll =>
      obtain ⟨target, -, rfl⟩ := List.mem_map.mp h
      rfl
  | _ =>
      obtain rfl := List.mem_singleton.mp h
      rfl

theorem Change.queries_singles {what c : Change} (h : c ∈ what.singles) {q : NodeRef}
    (hq : q ∈ c.queries) : q ∈ what.queries := by
  cases what with
  | selectAll | excludeAll | groupAll | sortAll =>
      obtain ⟨target, -, rfl⟩ := List.mem_map.mp h
      exact absurd hq List.not_mem_nil
  | _ =>
      obtain rfl := List.mem_singleton.mp h
      exact hq

/-- A single change asks for one edit. -/
theorem Change.requests_single {c : Change} (single : c.singles = [c]) (f : Forest) (t : Tree)
    (r : NodeRef) : ∃ request, c.requests f t r = [request] := by
  cases c with
  | selectAll targets => cases targets <;> simp [singles] at single
  | excludeAll targets => cases targets <;> simp [singles] at single
  | groupAll targets => cases targets <;> simp [singles] at single
  | sortAll targets direction => cases targets <;> simp [singles] at single
  | _ => exact ⟨_, rfl⟩

namespace Forest

variable {f g : Forest} {r : NodeRef} {e : QueryError}

/-- A single change is one edit, or it fails without changing anything. -/
theorem single_cases {c : Change} (single : c.singles = [c]) (hr : f.hasNode r)
    (hq : ∀ q ∈ c.queries, f.hasNode q) :
    (∃ edit, c.perform r f = .ok () (f.edit r edit)) ∨ ∃ e, c.perform r f = .error e f := by
  obtain ⟨t, ht⟩ := tree?_of_hasNode hr
  obtain ⟨request, asked⟩ := Change.requests_single single f t r
  rw [c.perform_eq ht hq, asked]
  cases request with
  | error e => exact Or.inr ⟨e, rfl⟩
  | ok edit => exact Or.inl ⟨edit, rfl⟩

/-- A call that is no change succeeds, or it fails without changing anything. -/
theorem call_cases (h : f.Sound) {what : Call} (there : ∀ r ∈ what.nodes, f.hasNode r)
    (noChange : ∀ r c, what ≠ .change r c) :
    (∃ s g, what.perform f = .ok s g) ∨ ∃ e, what.perform f = .error e f := by
  cases what with
  | root mappings entity explicit result => exact Or.inl ⟨_, _, rfl⟩
  | subQuery outer entity explicit =>
      obtain ⟨t, ht⟩ := tree?_of_hasNode (there outer List.mem_cons_self)
      exact Or.inl ⟨_, _, Build.subQuery_apply ht entity explicit⟩
  | branch r =>
      obtain ⟨t, ht⟩ := tree?_of_hasNode (there r List.mem_cons_self)
      exact Or.inl ⟨_, _, Build.branch_apply ht⟩
  | join r entity kind explicit =>
      have added := @addJoin_cases f r (there r List.mem_cons_self) (.entity entity) kind explicit
        (by simp [NodeSource.query?])
      rcases added with ⟨s, g, made, -⟩ | failed
      · exact Or.inl ⟨s, g, made⟩
      · exact Or.inr failed
  | joinQuery r query kind explicit =>
      have added := @joinQuery_cases f r query (there r List.mem_cons_self)
        (there query (List.mem_cons_of_mem _ List.mem_cons_self)) kind explicit
      rcases added with ⟨s, g, made, -⟩ | failed
      · exact Or.inl ⟨s, g, made⟩
      · exact Or.inr failed
  | attach r =>
      have hr := there r List.mem_cons_self
      rw [perform_attach hr]
      rcases attachTo_cases hr (h.hasNode_reference hr) with ⟨g, made, -⟩ | failed
      · exact Or.inl ⟨r, g, made⟩
      · exact Or.inr failed
  | attachTo r parent =>
      have attached := attachTo_cases (there r List.mem_cons_self)
        (there parent (List.mem_cons_of_mem _ List.mem_cons_self))
      rcases attached with ⟨g, made, -⟩ | failed
      · exact Or.inl ⟨r, g, made⟩
      · exact Or.inr failed
  | change r c => exact absurd rfl (noChange r c)

/-! ## Calls one after the other -/

/-- Whether calls succeed one after the other. -/
def acceptsAll (f : Forest) : List Call → Bool
  | [] => true
  | what :: rest => f.accepts what && (f.after (.call what)).acceptsAll rest

/-- Whether calls, performed one after the other, come to one that fails with `e` and leaves the
forest `g` as it is, which the calls before it have made. -/
def Stops (f : Forest) (calls : List Call) (e : QueryError) (g : Forest) : Prop :=
  ∃ before what after, calls = before ++ what :: after ∧ f.acceptsAll before ∧
    f.run (before.map .call) = g ∧ what.perform g = .error e g

theorem Stops.head {what : Call} (failed : what.perform f = .error e f) (rest : List Call) :
    f.Stops (what :: rest) e f :=
  ⟨[], what, rest, rfl, rfl, rfl, failed⟩

theorem Stops.cons {what : Call} {s : NodeRef} {f' : Forest} (made : what.perform f = .ok s f')
    {rest : List Call} (stops : f'.Stops rest e g) : f.Stops (what :: rest) e g := by
  obtain ⟨before, last, behind, rfl, accepted, reached, failed⟩ := stops
  have left : f.after (.call what) = f' := after_ok made
  refine ⟨what :: before, last, behind, rfl, ?_, ?_, failed⟩
  · have first : f.accepts what = true := by simp [accepts, made]
    rw [acceptsAll, first, left, accepted, Bool.and_self]
  · rw [← reached, ← left]
    rfl

/-- Single changes stop at the first that fails. -/
theorem forM_stops {changes : List Change} (single : ∀ c ∈ changes, c.singles = [c])
    (hr : f.hasNode r) (hq : ∀ c ∈ changes, ∀ q ∈ c.queries, f.hasNode q)
    (failed : changes.forM (Change.perform r) f = .error e g) :
    f.Stops (changes.map (.change r)) e g := by
  induction changes generalizing f with
  | nil => exact absurd failed (by simp [Build.pure_apply])
  | cons c rest ih =>
      have alone := single_cases (single c List.mem_cons_self) hr (hq c List.mem_cons_self)
      rw [Build.forM_cons_apply] at failed
      rcases alone with ⟨edit, made⟩ | ⟨e', unchanged⟩
      · -- The change is made, so that the call fails among the changes behind it.
        rw [made] at failed
        obtain ⟨t, ht⟩ := tree?_of_hasNode hr
        have kept : f.Kept (f.edit r edit) := .edit ht edit
        have done : (Call.change r c).perform f = .ok r (f.edit r edit) := Build.then_ok r made
        refine Stops.cons done (ih ?_ (kept.hasNode hr) ?_ failed)
        · exact fun c hc => single c (List.mem_cons_of_mem _ hc)
        · exact fun c hc q mem => kept.hasNode (hq c (List.mem_cons_of_mem _ hc) q mem)
      · rw [unchanged] at failed
        obtain ⟨rfl, rfl⟩ := EStateM.Result.error.inj failed
        have undone : (Call.change r c).perform f = .error e' f := Build.then_error r unchanged
        exact Stops.head undone _

/-- **A call that fails in a forest that callers can make leaves it as it was, unless it is a call
for several columns. Such a call leaves what the calls for the columns before the failing one have
made, when they are performed one after the other.** -/
theorem failed_call (h : f.Reachable) {what : Call} (there : ∀ r ∈ what.nodes, f.hasNode r)
    (failed : what.perform f = .error e g) :
    (what.singles = [what] → g = f) ∧ f.Stops what.singles e g := by
  have stops : f.Stops what.singles e g := by
    by_cases change : ∃ r c, what = .change r c
    · obtain ⟨r, c, rfl⟩ := change
      have performed : c.perform r f = .error e g := by
        cases made : c.perform r f with
        | ok _ f' => exact absurd ((Build.then_ok r made).symm.trans failed) (by simp)
        | error e' f' =>
            have same := (Build.then_error r made).symm.trans failed
            obtain ⟨rfl, rfl⟩ := EStateM.Result.error.inj same
            rfl
      rw [Change.perform_singles] at performed
      refine forM_stops (fun c' mem => Change.singles_single mem) ?_ ?_ performed
      · exact there r List.mem_cons_self
      · exact fun c' mem q hq => there q (List.mem_cons_of_mem _ (Change.queries_singles mem hq))
    · have noChange : ∀ r c, what ≠ .change r c := fun r c same => change ⟨r, c, same⟩
      have alone : what.singles = [what] := by
        cases what with
        | change r c => exact absurd rfl (noChange r c)
        | _ => rfl
      rcases call_cases h.sound there noChange with ⟨s, f', made⟩ | ⟨e', unchanged⟩
      · exact absurd (made.symm.trans failed) (by simp)
      · obtain ⟨rfl, rfl⟩ := EStateM.Result.error.inj (unchanged.symm.trans failed)
        rw [alone]
        exact Stops.head failed []
  refine ⟨fun alone => ?_, stops⟩
  -- A call alone has no calls before it.
  obtain ⟨before, last, behind, split, -, reached, -⟩ := stops
  have none : before = [] := by
    have length := congrArg List.length (alone.symm.trans split)
    simp only [List.length_cons, List.length_nil, List.length_append] at length
    exact List.length_eq_zero_iff.mp (by omega)
  rw [none] at reached
  exact reached.symm

/-- A query whose entity has no mapping, so that its columns can be named but not its properties. -/
def unmapped : List Action :=
  [.call (.root {} ⟨"order", "Order", "orders"⟩ (some "o") {}),
    .call (.change ⟨0, 0⟩ (.compare (.column "total") .gt (.int 100)))]

/-- The second of three columns is not found: the first one stays selected. A join under the alias of
the root is refused. -/
theorem failed_call_unmapped :
    (∃ g, (Call.change ⟨0, 0⟩ (.selectAll [.column "id", .property "total", .column "paid"])).perform
        (empty.run unmapped) = .error (.unresolvedProperty "Order" "total") g ∧
      (empty.run unmapped).Stops
        [.change ⟨0, 0⟩ (.select (.column "id") none), .change ⟨0, 0⟩ (.select (.property "total") none),
          .change ⟨0, 0⟩ (.select (.column "paid") none)] (.unresolvedProperty "Order" "total") g ∧
      (g.node ⟨0, 0⟩).selected = [.column ⟨"id", none⟩ none]) ∧
    ∃ g, (Call.join ⟨0, 0⟩ ⟨"item", "Item", "items"⟩ .inner (some "o")).perform (empty.run unmapped)
        = .error (.duplicateAlias "o") g ∧ g = empty.run unmapped := by
  have reachable : (empty.run unmapped).Reachable := ⟨unmapped, by decide, rfl⟩
  constructor
  · obtain ⟨g, failed, selected⟩ : ∃ g, (Call.change ⟨0, 0⟩ (.selectAll
        [.column "id", .property "total", .column "paid"])).perform (empty.run unmapped)
          = .error (.unresolvedProperty "Order" "total") g ∧
        (g.node ⟨0, 0⟩).selected = [.column ⟨"id", none⟩ none] := ⟨_, rfl, rfl⟩
    exact ⟨g, failed, (failed_call reachable (by decide) failed).2, selected⟩
  · obtain ⟨g, failed⟩ : ∃ g, (Call.join ⟨0, 0⟩ ⟨"item", "Item", "items"⟩ .inner (some "o")).perform
        (empty.run unmapped) = .error (.duplicateAlias "o") g := ⟨_, rfl⟩
    exact ⟨g, failed, (failed_call reachable (by decide) failed).1 rfl⟩

end Forest

end QueryForest
