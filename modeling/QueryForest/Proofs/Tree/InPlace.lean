import QueryForest.Proofs.Tree.Derivation
import QueryForest.Tree.InPlace

set_option autoImplicit false

/-!
# Changes in place

Adding a join and attaching it write a tree in several places. They write all of them or none: an
alias that is registered after it has been counted is free (`AliasTable.allocating_eq`), a join is
added once its alias is registered (`Tree.addingJoin_eq`), and nothing is checked any more once a
join has its parent (`Tree.attaching_eq`).
-/

namespace QueryForest

/-- A change goes on with the state that it reads. -/
theorem get_bind_apply {σ α : Type} (next : σ → EStateM QueryError σ α) (s : σ) :
    (get >>= next : EStateM QueryError σ α) s = next s s := rfl

/-! ## Aliases -/

namespace AliasTable

theorem registering_eq (aliasName : String) (id : NodeId) (t : AliasTable) :
    registering aliasName id t = match t.register aliasName id with
      | .ok t' => .ok () t'
      | .error e => .error e t := by
  rw [registering, get_bind_apply, register]
  by_cases used : aliasName ∈ t.names
  · simp only [used, if_true]
    rfl
  · simp only [used, if_false]
    rfl

/-- **Allocating an alias changes the table just when it succeeds**, although a derived alias is
counted before it is registered. -/
theorem allocating_eq (entityName : String) (explicit : Option String) (id : NodeId)
    (t : AliasTable) : allocating entityName explicit id t
      = match t.allocate entityName explicit id with
        | .ok (aliasName, t') => .ok aliasName t'
        | .error e => .error e t := by
  cases explicit with
  | some aliasName =>
      show (registering aliasName id >>= fun _ => pure aliasName) t = _
      simp only [bind, EStateM.bind, registering_eq, allocate]
      cases t.register aliasName id <;> rfl
  | none =>
      -- The counter has moved when the alias is registered, so that this must not fail.
      show (registering (t.next entityName).1 id >>= fun _ => pure (t.next entityName).1)
        (t.next entityName).2 = _
      simp only [bind, EStateM.bind, registering_eq, register_next, allocate_next]
      rfl

end AliasTable

/-! ## Joins -/

namespace Tree

/-- **Adding a join changes the tree just when it succeeds**: only the alias can be refused. -/
theorem addingJoin_eq (reference : NodeId) (source : NodeSource) (kind : Sql.JoinKind)
    (explicit : Option String) (t : Tree) : addingJoin reference source kind explicit t
      = match t.addJoin reference source kind explicit with
        | .ok (id, t') => .ok id t'
        | .error e => .error e t := by
  have named : onAliases (AliasTable.allocating source.entityOf.name explicit t.nodes.length) t
      = match t.aliases.allocate source.entityOf.name explicit t.nodes.length with
        | .ok (aliasName, aliases) => .ok aliasName { t with aliases }
        | .error e => .error e t := by
    unfold onAliases
    rw [AliasTable.allocating_eq]
    cases t.aliases.allocate source.entityOf.name explicit t.nodes.length <;> rfl
  rw [addingJoin, get_bind_apply]
  simp only [bind, EStateM.bind, named, addJoin_eq]
  cases t.aliases.allocate source.entityOf.name explicit t.nodes.length <;> rfl

theorem checkAttach_eq (join parent : NodeId) (t : Tree) :
    checkAttach join parent t = match t.attach join parent with
      | .ok _ => .ok () t
      | .error e => .error e t := by
  rw [checkAttach, get_bind_apply, attach]
  cases (t.node join).join with
  | none => rfl
  | some edge =>
      cases hparent : edge.parent with
      | some current => simp only [hparent]; rfl
      | none =>
          simp only [hparent]
          split <;> rfl

/-- **Attaching a join changes the tree just when it succeeds**: the checks come before the join
gets its parent, and the link is made in any case. -/
theorem attaching_eq (join parent : NodeId) (t : Tree) :
    attaching join parent t = match t.attach join parent with
      | .ok t' => .ok () t'
      | .error e => .error e t := by
  simp only [attaching, bind, EStateM.bind, checkAttach_eq]
  cases attached : t.attach join parent with
  | error e => rfl
  | ok t' =>
      -- The parent and the link are all that is written.
      obtain ⟨-, -, -, rfl⟩ := attach_ok attached
      rfl

end Tree

end QueryForest
