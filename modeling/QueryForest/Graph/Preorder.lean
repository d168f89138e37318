set_option autoImplicit false

/-!
# Depth-first order

The vertices that can be reached from a vertex of a finite graph, each of them once and before
those first reached through it. The vertices are the numbers below a bound, and the successors of
a vertex are visited in their order.
-/

namespace QueryForest.Graph

/-- Appends to `seen` the vertices reached from `v` by paths of at most `length` vertices, none of
which has been seen before. -/
def visit (successors : Nat → List Nat) : (length : Nat) → (seen : List Nat) → Nat → List Nat
  | 0, seen, _ => seen
  | length + 1, seen, v =>
    if v ∈ seen then seen
    else (successors v).foldl (visit successors length) (seen ++ [v])

/-- The vertices reached from `v` in a graph on the numbers below `size`. A path that repeats no
vertex has at most `size` of them, so no vertex is missed. -/
def preorder (successors : Nat → List Nat) (size v : Nat) : List Nat :=
  visit successors size [] v

end QueryForest.Graph
