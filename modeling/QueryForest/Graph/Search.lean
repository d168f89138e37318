set_option autoImplicit false

/-!
# Search in a graph

Looking for a vertex among those that can be reached, with a stack of the vertices that still have
to be looked at. A vertex that has been seen before is passed over.
-/

namespace QueryForest.Graph

/-- Whether `target` is found when at most `pops` vertices are taken from the top of the stack. A
vertex taken for the first time puts its successors onto the stack, the last one on top. -/
def search (successors : Nat → List Nat) (target : Nat) :
    (pops : Nat) → (seen stack : List Nat) → Bool
  | 0, _, _ => false
  | _ + 1, _, [] => false
  | pops + 1, seen, v :: stack =>
    if v = target then true
    else if v ∈ seen then search successors target pops seen stack
    else search successors target pops (v :: seen) ((successors v).reverse ++ stack)

end QueryForest.Graph
