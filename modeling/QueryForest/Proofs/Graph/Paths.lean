import Mathlib.Logic.Relation

set_option autoImplicit false

/-!
# Paths in graphs

A graph is given by the lists of the successors of its vertices. `Edge` is its relation, `Reaches`
the paths along it, and `Acyclic` says of any relation on the vertices that no path comes back to
where it began.

The two graphs of the library, the joins of a tree and the nesting of trees, grow one edge at a
time, and an edge is only added when its end does not reach its beginning. `Acyclic.insert` is the
reason why they stay acyclic.
-/

namespace QueryForest.Graph

open Relation

/-- Whether `w` is a successor of `v`. -/
def Edge (successors : Nat → List Nat) (v w : Nat) : Prop := w ∈ successors v

/-- Whether a path leads from `v` to `w`; the empty path leads from `v` to `v`. -/
def Reaches (successors : Nat → List Nat) : Nat → Nat → Prop := ReflTransGen (Edge successors)

/-- No path of at least one edge leads back to where it began. -/
def Acyclic (r : Nat → Nat → Prop) : Prop := ∀ v, ¬ TransGen r v v

theorem Acyclic.mono {r r' : Nat → Nat → Prop} (h : Acyclic r) (sub : ∀ v w, r' v w → r v w) :
    Acyclic r' :=
  fun v cycle => h v (TransGen.mono sub _ _ cycle)

/-- A path over one edge more than `r` has goes along `r`, or else uses the new edge; of the part
before its first use and the part after its last one nothing else is kept. -/
theorem path_insert {r r' : Nat → Nat → Prop} {a b : Nat}
    (new : ∀ v w, r' v w → r v w ∨ (v = a ∧ w = b)) {v w : Nat} (path : TransGen r' v w) :
    TransGen r v w ∨ (ReflTransGen r v a ∧ ReflTransGen r b w) := by
  induction path with
  | single edge =>
      rcases new _ _ edge with old | ⟨rfl, rfl⟩
      · exact Or.inl (TransGen.single old)
      · exact Or.inr ⟨ReflTransGen.refl, ReflTransGen.refl⟩
  | tail _ edge ih =>
      rcases new _ _ edge with old | ⟨rfl, rfl⟩
      · rcases ih with along | ⟨before, behind⟩
        · exact Or.inl (along.tail old)
        · exact Or.inr ⟨before, behind.tail old⟩
      · rcases ih with along | ⟨before, _⟩
        · exact Or.inr ⟨along.to_reflTransGen, ReflTransGen.refl⟩
        · exact Or.inr ⟨before, ReflTransGen.refl⟩

/-- An edge whose end does not reach its beginning closes no cycle. -/
theorem Acyclic.insert {r r' : Nat → Nat → Prop} {a b : Nat} (h : Acyclic r)
    (new : ∀ v w, r' v w → r v w ∨ (v = a ∧ w = b)) (apart : ¬ ReflTransGen r b a) :
    Acyclic r' := by
  intro v cycle
  rcases path_insert new cycle with old | ⟨before, behind⟩
  · exact h v old
  · exact apart (behind.trans before)

/-- In an acyclic graph no successor of a vertex reaches it. -/
theorem Acyclic.not_reaches {successors : Nat → List Nat} (h : Acyclic (Edge successors))
    {v w : Nat} (edge : w ∈ successors v) : ¬ Reaches successors w v :=
  fun path => h v (TransGen.head' edge path)

theorem Reaches.refl {successors : Nat → List Nat} (v : Nat) : Reaches successors v v :=
  ReflTransGen.refl

/-- A path of at least one vertex is empty or begins with an edge. -/
theorem reaches_iff {successors : Nat → List Nat} {v w : Nat} :
    Reaches successors v w ↔ w = v ∨ ∃ u ∈ successors v, Reaches successors u w := by
  unfold Reaches
  rw [ReflTransGen.cases_head_iff]
  exact or_congr eq_comm Iff.rfl

theorem Reaches.head {successors : Nat → List Nat} {v u w : Nat} (edge : u ∈ successors v)
    (path : Reaches successors u w) : Reaches successors v w :=
  ReflTransGen.head edge path

/-- Vertices below a bound are only left along edges, so that a path stays below it. -/
theorem Reaches.lt {successors : Nat → List Nat} {size v w : Nat}
    (below : ∀ v, ∀ w ∈ successors v, w < size) (hv : v < size) (path : Reaches successors v w) :
    w < size := by
  induction path with
  | refl => exact hv
  | tail _ edge _ => exact below _ _ edge

end QueryForest.Graph
