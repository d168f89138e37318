import QueryForest.Graph.Search
import QueryForest.Proofs.Graph.Paths

set_option autoImplicit false

/-!
# What the search finds

The search finds a vertex exactly when a path leads to it from the stack (`search_iff`). Two things
carry the proof.

* The vertices seen so far are *fenced*: the successors of each of them have been seen or wait on
  the stack. A path from a seen vertex to one that has not been seen therefore leads through the
  stack.
* The pops suffice. Each edge puts its end onto the stack at most once, when the vertex in which it
  begins is taken for the first time, so that the length of the stack and the number of the edges
  from unseen vertices add up to a number that every pop makes smaller by one.
-/

namespace QueryForest.Graph

variable {successors : Nat → List Nat} {target : Nat}

/-- The successors of the seen vertices have been seen or are on the stack. -/
def Fenced (successors : Nat → List Nat) (seen stack : List Nat) : Prop :=
  ∀ v ∈ seen, ∀ w ∈ successors v, w ∈ seen ∨ w ∈ stack

/-- Whether the target can be reached from the stack. -/
def Awaited (successors : Nat → List Nat) (target : Nat) (stack : List Nat) : Prop :=
  ∃ v ∈ stack, Reaches successors v target

/-- A path from a seen vertex to an unseen one goes through the stack. -/
theorem Fenced.awaited {seen stack : List Nat} (fenced : Fenced successors seen stack)
    (unseen : target ∉ seen) {v : Nat} (path : Reaches successors v target) (hv : v ∈ seen) :
    Awaited successors target stack := by
  induction path using Relation.ReflTransGen.head_induction_on with
  | refl => exact absurd hv unseen
  | @head v w edge rest ih =>
      by_cases hw : w ∈ seen
      · exact ih hw
      · rcases fenced v hv w edge with seen | waits
        · exact absurd seen hw
        · exact ⟨w, waits, rest⟩

/-! ## Passing over a seen vertex -/

theorem Fenced.pass {v : Nat} {seen stack : List Nat}
    (fenced : Fenced successors seen (v :: stack)) (hv : v ∈ seen) :
    Fenced successors seen stack := by
  intro u hu w hw
  rcases fenced u hu w hw with h | h
  · exact Or.inl h
  · rcases List.mem_cons.mp h with rfl | h
    · exact Or.inl hv
    · exact Or.inr h

theorem Fenced.awaited_pass {v : Nat} {seen stack : List Nat}
    (fenced : Fenced successors seen (v :: stack)) (unseen : target ∉ seen) (hv : v ∈ seen) :
    Awaited successors target (v :: stack) ↔ Awaited successors target stack := by
  constructor
  · rintro ⟨u, hu, path⟩
    rcases List.mem_cons.mp hu with rfl | hu
    · exact (fenced.pass hv).awaited unseen path hv
    · exact ⟨u, hu, path⟩
  · rintro ⟨u, hu, path⟩
    exact ⟨u, List.mem_cons_of_mem v hu, path⟩

/-! ## Taking a vertex for the first time -/

theorem Fenced.take {v : Nat} {seen stack : List Nat}
    (fenced : Fenced successors seen (v :: stack)) :
    Fenced successors (v :: seen) ((successors v).reverse ++ stack) := by
  intro u hu w hw
  rw [List.mem_append, List.mem_reverse, List.mem_cons]
  rcases List.mem_cons.mp hu with rfl | hu
  · exact Or.inr (Or.inl hw)
  · rcases fenced u hu w hw with h | h
    · exact Or.inl (Or.inr h)
    · rcases List.mem_cons.mp h with h | h
      · exact Or.inl (Or.inl h)
      · exact Or.inr (Or.inr h)

theorem awaited_take {v : Nat} (other : v ≠ target) (stack : List Nat) :
    Awaited successors target (v :: stack) ↔
      Awaited successors target ((successors v).reverse ++ stack) := by
  constructor
  · rintro ⟨u, hu, path⟩
    rcases List.mem_cons.mp hu with rfl | hu
    · rcases reaches_iff.mp path with h | ⟨w, hw, rest⟩
      · exact absurd h.symm other
      · exact ⟨w, by simp [hw], rest⟩
    · exact ⟨u, by simp [hu], path⟩
  · rintro ⟨u, hu, path⟩
    rcases List.mem_append.mp hu with hu | hu
    · exact ⟨v, List.mem_cons_self, path.head (List.mem_reverse.mp hu)⟩
    · exact ⟨u, List.mem_cons_of_mem v hu, path⟩

/-- The edges that begin in vertices not seen so far. -/
def unused (edges : List (Nat × Nat)) (seen : List Nat) : List (Nat × Nat) :=
  edges.filter fun edge => edge.1 ∉ seen

/-- Taking a vertex for the first time uses up the edges that begin in it. -/
theorem length_unused_cons (edges : List (Nat × Nat)) {seen : List Nat} {v : Nat} (hv : v ∉ seen) :
    (unused edges (v :: seen)).length + (edges.filter fun edge => edge.1 = v).length
      = (unused edges seen).length := by
  induction edges with
  | nil => rfl
  | cons edge rest ih =>
      by_cases h : edge.1 = v
      · subst h
        simp [unused, hv] at ih ⊢
        omega
      · by_cases hs : edge.1 ∈ seen <;> simp [unused, h, hs] at ih ⊢ <;> omega

/-! ## The search -/

/-- **The search is exact.** With a pop for every vertex on the stack and for every edge from an
unseen vertex, it finds the target if and only if the stack reaches it. -/
theorem search_iff (edges : List (Nat × Nat))
    (listed : ∀ v, successors v = (edges.filter fun edge => edge.1 = v).map (·.2))
    {pops : Nat} {seen stack : List Nat} (enough : stack.length + (unused edges seen).length ≤ pops)
    (fenced : Fenced successors seen stack) (unseen : target ∉ seen) :
    search successors target pops seen stack = true ↔ Awaited successors target stack := by
  induction pops generalizing seen stack with
  | zero =>
      have empty : stack = [] := List.length_eq_zero_iff.mp (by omega)
      simp [search, empty, Awaited]
  | succ pops ih =>
      cases stack with
      | nil => simp [search, Awaited]
      | cons v stack =>
          by_cases found : v = target
          · subst found
            simp [search, Awaited, Reaches.refl]
          by_cases hv : v ∈ seen
          · have step : search successors target (pops + 1) seen (v :: stack)
                = search successors target pops seen stack := by
              simp [search, found, hv]
            rw [step, fenced.awaited_pass unseen hv]
            exact ih (by simp at enough; omega) (fenced.pass hv) unseen
          · have step : search successors target (pops + 1) seen (v :: stack)
                = search successors target pops (v :: seen)
                    ((successors v).reverse ++ stack) := by
              simp [search, found, hv]
            have enough' : ((successors v).reverse ++ stack).length
                + (unused edges (v :: seen)).length ≤ pops := by
              have used := length_unused_cons edges hv
              simp [listed v] at enough ⊢
              omega
            rw [step, awaited_take found]
            exact ih enough' fenced.take (by simp [unseen, Ne.symm found])

end QueryForest.Graph
