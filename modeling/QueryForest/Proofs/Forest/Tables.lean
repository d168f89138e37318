import QueryForest.Proofs.Forest.Runs
import QueryForest.Proofs.Tree.Derivation

set_option autoImplicit false

/-!
# What actions do to aliases

Of all actions only those that make a join register an alias, for the join and in its own tree: the one
that the caller has chosen, or else a derived one. Every other action leaves the tables of the trees
alone, also when it fails (`Sound.after_registers`).
-/

namespace QueryForest

/-- The alias that the caller has chosen for a join. -/
def Action.joinAlias? : Action → Option String
  | .call (.join _ _ _ explicit) => explicit
  | .call (.joinQuery _ _ _ explicit) => explicit
  | _ => none

namespace Forest

variable {f g : Forest} {i : TreeId} {t : Tree} {r : NodeRef}

/-- Whether an action makes a join in a tree. -/
def makesJoin (f : Forest) (i : TreeId) : Action → Bool
  | .call (.join r entity kind explicit) => f.accepts (.join r entity kind explicit) && r.tree = i
  | .call (.joinQuery r query kind explicit) =>
    f.accepts (.joinQuery r query kind explicit) && r.tree = i
  | _ => false

/-- What an action does to the table of a tree: it registers the alias of the join that it makes there,
or else it does nothing. -/
def Registers (f : Forest) (i : TreeId) (a : Action) (u u' : AliasTable) : Prop :=
  if f.makesJoin i a then
    ∃ entityName id aliasName, u.allocate entityName a.joinAlias? id = .ok (aliasName, u')
  else u' = u

/-- Whether a tree has in another forest what it has made of its table. -/
def Turns (f g : Forest) (i : TreeId) (change : AliasTable → AliasTable → Prop) : Prop :=
  ∀ t, f.tree? i = some t → ∃ t', g.tree? i = some t' ∧ change t.aliases t'.aliases

/-! ## Tables that stay as they are -/

/-- Whether a tree has the same table in another forest. -/
abbrev Spares (f g : Forest) (i : TreeId) : Prop := f.Turns g i fun u u' => u' = u

namespace Spares

theorem refl (f : Forest) (i : TreeId) : f.Spares f i := fun t ht => ⟨t, ht, rfl⟩

theorem trans {h : Forest} (first : f.Spares g i) (rest : g.Spares h i) : f.Spares h i := by
  intro t ht
  obtain ⟨t', ht', same⟩ := first t ht
  obtain ⟨t'', ht'', same'⟩ := rest t' ht'
  exact ⟨t'', ht'', same'.trans same⟩

theorem setTree {k : TreeId} {u u' : Tree} (hu : f.tree? k = some u)
    (same : i = k → u'.aliases = u.aliases) : f.Spares (f.setTree k u') i := by
  intro t ht
  rw [tree?_setTree hu]
  by_cases here : i = k
  · obtain rfl : u = t := Option.some.inj (hu.symm.trans (here ▸ ht))
    exact ⟨u', if_pos here, same here⟩
  · exact ⟨t, by rw [if_neg here, ht], rfl⟩

theorem addTree (f : Forest) (t : Tree) (i : TreeId) : f.Spares (f.addTree t).2 i := by
  intro u hu
  refine ⟨u, ?_, rfl⟩
  rw [tree?_addTree, if_neg (Nat.ne_of_lt (tree?_lt hu)), hu]

theorem editAll (ht : f.tree? r.tree = some t) (requests : List (Except QueryError Edit)) :
    ∃ g, f.Spares g i ∧
      (f.editAll r requests = .ok () g ∨ ∃ e, f.editAll r requests = .error e g) := by
  induction requests generalizing f t with
  | nil => exact ⟨f, refl f i, Or.inl rfl⟩
  | cons request rest ih =>
      cases request with
      | error e => exact ⟨f, refl f i, Or.inr ⟨e, rfl⟩⟩
      | ok e =>
          have first : f.Spares (f.edit r e) i := by
            rw [edit_eq ht]
            exact setTree ht fun _ => rfl
          obtain ⟨g, spares, done⟩ := ih (tree?_edit ht e)
          exact ⟨g, first.trans spares, done⟩

theorem attachTo {parent : NodeRef} (hr : f.hasNode r) (hp : f.hasNode parent) (i : TreeId) :
    ∃ g, f.Spares g i ∧ ((∃ s, (Call.attachTo r parent).perform f = .ok s g) ∨
      ∃ e, (Call.attachTo r parent).perform f = .error e g) := by
  rcases attachTo_outcome hr hp with ⟨t, ht, attached⟩ | failed
  · have spares : f.Spares (f.setTree r.tree (t.addLink r.node parent.node)) i :=
      setTree ht fun _ => rfl
    exact ⟨_, spares, Or.inl ⟨r, attached⟩⟩
  · exact ⟨f, .refl f i, Or.inr failed⟩

end Spares

/-! ## Actions -/

/-- A call that makes no join in a tree spares its table, also when it fails. -/
theorem quiet_registers {what : Call} (quiet : f.makesJoin i (.call what) = false)
    (spares : f.Spares g i)
    (done : (∃ s, what.perform f = .ok s g) ∨ ∃ e, what.perform f = .error e g) :
    f.Turns (f.after (.call what)) i (f.Registers i (.call what)) := by
  have left : f.after (.call what) = g := by
    rcases done with ⟨s, made⟩ | ⟨e, failed⟩
    · exact after_ok made
    · exact after_error failed
  have nothing : f.Registers i (.call what) = fun u u' => u' = u := by
    funext u u'
    rw [Registers, quiet]
    rfl
  rw [left, nothing]
  exact spares

/-- A call that adds a join registers its alias in the tree of the join. -/
theorem join_registers {what : Call} (hr : f.hasNode r) {source : NodeSource} {kind : Sql.JoinKind}
    {explicit : Option String}
    (isJoin : f.makesJoin i (.call what) = (f.accepts what && decide (r.tree = i)))
    (chosen : (Action.call what).joinAlias? = explicit)
    (perform : what.perform f = Build.addJoin r source kind explicit f) :
    f.Turns (f.after (.call what)) i (f.Registers i (.call what)) := by
  rcases addJoin_outcome hr source kind explicit with
    ⟨t, aliasName, aliases, ht, allocated, made⟩ | ⟨e, failed⟩
  · have performed := perform.trans made
    have accepted : f.accepts what = true := by simp [accepts, performed]
    by_cases here : r.tree = i
    · subst here
      have makes : f.makesJoin r.tree (.call what) = true := by simp [isJoin, accepted]
      intro u hu
      obtain rfl : t = u := Option.some.inj (ht.symm.trans hu)
      refine ⟨t.addNode (t.newJoin r.node source kind aliasName) aliases, ?_, ?_⟩
      · rw [after_ok performed, tree?_setTree ht, if_pos rfl]
      · rw [Registers, if_pos makes, chosen]
        exact ⟨_, _, aliasName, allocated⟩
    · have quiet : f.makesJoin i (.call what) = false := by simp [isJoin, here]
      exact quiet_registers quiet (.setTree ht fun same => absurd same.symm here)
        (Or.inl ⟨_, performed⟩)
  · have performed := perform.trans failed
    have refused : f.accepts what = false := by simp [accepts, performed]
    have quiet : f.makesJoin i (.call what) = false := by rw [isJoin, refused, Bool.false_and]
    exact quiet_registers quiet (.refl f i) (Or.inr ⟨e, performed⟩)

/-- **An action registers the alias of the join that it makes, and no other alias.** -/
theorem Sound.after_registers (h : f.Sound) (a : Action) (there : ∀ r ∈ a.nodes, f.hasNode r)
    (i : TreeId) : f.Turns (f.after a) i (f.Registers i a) := by
  cases a with
  | hold name r => exact fun t ht => ⟨t, ht, rfl⟩
  | release name => exact fun t ht => ⟨t, ht, rfl⟩
  | call what =>
      cases what with
      | root mappings entity explicit result =>
          exact quiet_registers rfl (.addTree f _ i) (Or.inl ⟨_, rfl⟩)
      | subQuery outer entity explicit =>
          obtain ⟨t, ht⟩ := tree?_of_hasNode (there outer List.mem_cons_self)
          exact quiet_registers rfl (.addTree f _ i)
            (Or.inl ⟨_, Build.subQuery_apply ht entity explicit⟩)
      | branch r =>
          obtain ⟨t, ht⟩ := tree?_of_hasNode (there r List.mem_cons_self)
          have spares : f.Spares (f.setTree r.tree (t.addBranch r.node).2) i :=
            .setTree ht fun _ => rfl
          exact quiet_registers rfl spares (Or.inl ⟨_, Build.branch_apply ht⟩)
      | join r entity kind explicit =>
          exact join_registers (there r List.mem_cons_self) rfl rfl rfl
      | joinQuery r query kind explicit =>
          have perform : (Call.joinQuery r query kind explicit).perform f = _ :=
            Build.joinQuery_apply (there query (List.mem_cons_of_mem _ List.mem_cons_self)) kind explicit
          split at perform
          · have refused : f.accepts (.joinQuery r query kind explicit) = false := by
              simp [accepts, perform]
            have quiet : f.makesJoin i (.call (.joinQuery r query kind explicit)) = false := by
              rw [makesJoin, refused, Bool.false_and]
            exact quiet_registers quiet (.refl f i) (Or.inr ⟨_, perform⟩)
          · exact join_registers (there r List.mem_cons_self) rfl rfl perform
      | attach r =>
          have hr := there r List.mem_cons_self
          obtain ⟨g, spares, done⟩ := Spares.attachTo hr (h.hasNode_reference hr) i
          rw [← perform_attach hr] at done
          exact quiet_registers rfl spares done
      | attachTo r parent =>
          obtain ⟨g, spares, done⟩ := Spares.attachTo (there r List.mem_cons_self)
            (there parent (List.mem_cons_of_mem _ List.mem_cons_self)) i
          exact quiet_registers rfl spares done
      | change r what =>
          obtain ⟨t, ht⟩ := tree?_of_hasNode (there r List.mem_cons_self)
          have hq : ∀ q ∈ what.queries, f.hasNode q :=
            fun q hq => there q (List.mem_cons_of_mem _ hq)
          obtain ⟨g, spares, done⟩ := Spares.editAll (i := i) ht (what.requests f t r)
          rw [← what.perform_eq ht hq] at done
          refine quiet_registers rfl spares ?_
          rcases done with made | ⟨e, failed⟩
          · exact Or.inl ⟨r, Build.then_ok r made⟩
          · exact Or.inr ⟨e, Build.then_error r failed⟩

end Forest

end QueryForest
