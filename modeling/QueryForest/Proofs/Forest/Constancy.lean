import QueryForest.Proofs.Forest.Permanence
import QueryForest.Proofs.Forest.Renewal

set_option autoImplicit false

/-!
# What never changes about a node

A node is changed by edits and by its attachment only. So what neither of them changes is the same
after every run (`Sound.run_constant`), as what a node takes its rows from is.
-/

namespace QueryForest

variable {α : Type} {p : Node → α}

/-- Whether something about a node is changed neither by edits nor by its attachment. -/
structure Node.Constant (p : Node → α) : Prop where
  edit : ∀ (e : Edit) (n : Node), p (e.apply n) = p n
  attach : ∀ (parent : NodeId) (n : Node), p (Tree.setParent parent n) = p n

theorem Node.constant_source : Node.Constant Node.source :=
  ⟨Edit.source_apply, fun _ _ => rfl⟩

theorem Node.constant_origin : Node.Constant Node.origin :=
  ⟨Edit.origin_apply, fun _ _ => rfl⟩

theorem Node.constant_outer : Node.Constant Node.outer := by
  refine ⟨fun e n => ?_, fun _ _ => rfl⟩
  cases e with
  | select => simp only [Edit.apply, Node.select]; split <;> rfl
  | exclude => simp only [Edit.apply, Node.exclude]; split <;> rfl
  | _ => rfl

/-- The node that a join was created from stays the same. -/
theorem Node.constant_reference : Node.Constant fun n : Node => n.join.map (·.reference) := by
  constructor
  · intro e n
    obtain ⟨conditions, h⟩ := e.join_apply n
    show (e.apply n).join.map (·.reference) = n.join.map (·.reference)
    rw [h, Option.map_map]
    rfl
  · intro parent n
    show (Tree.setParent parent n).join.map (·.reference) = n.join.map (·.reference)
    unfold Tree.setParent
    rw [Option.map_map]
    rfl

namespace Forest

variable {f g : Forest} {r : NodeRef}

/-- A step does not change what is constant about the nodes that there are. -/
theorem Step.constant (constant : Node.Constant p) {attached : Option (NodeRef × NodeRef)}
    (step : Step f attached g) (hr : f.hasNode r) : p (g.node r) = p (f.node r) := by
  rcases step.renews with ⟨same, -⟩ | ⟨s, n, renews, updated⟩
  · rw [same]
  · by_cases here : r = s
    · subst here
      rw [updated.node_self]
      rcases renews.old hr with ⟨edge, parent, -, -, rfl⟩ | ⟨e, rfl⟩
      · exact constant.attach parent _
      · exact constant.edit e _
    · rw [updated.node_of_ne here]

/-- **A run does not change what is constant about the nodes that there are.** -/
theorem Steps.constant (constant : Node.Constant p) {log : List (NodeRef × NodeRef)}
    (steps : Steps f log g) (hr : f.hasNode r) : p (g.node r) = p (f.node r) := by
  induction steps with
  | refl => rfl
  | head step _ ih => exact (ih (step.kept.hasNode hr)).trans (step.constant constant hr)

theorem Sound.run_constant (h : f.Sound) (constant : Node.Constant p) {actions : List Action}
    (admitted : f.admits actions) (hr : f.hasNode r) : p ((f.run actions).node r) = p (f.node r) :=
  (h.run_steps actions admitted).constant constant hr

end Forest

end QueryForest
