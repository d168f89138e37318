import QueryForest.Tree.Basic

set_option autoImplicit false

/-!
# Forests

The query trees of a caller, and the handles by which the caller holds on to their nodes. A tree
lives as long as one of its nodes is held, or it is nested in a tree that lives: as the source of
a node or in one of its filters. A tree that no longer lives keeps its place but can no longer be
correlated with.
-/

namespace QueryForest

/-- Query trees and the named handles of their nodes. -/
structure Forest where
  trees : List Tree := []
  handles : List (String × NodeRef) := []

namespace Forest

def empty : Forest := {}

/-- The tree at a place. -/
def tree? (f : Forest) (id : TreeId) : Option Tree := f.trees[id]?

/-- The node of a reference. -/
def node (f : Forest) (r : NodeRef) : Node :=
  match f.tree? r.tree with
  | some t => t.node r.node
  | none => default

/-- Adds a tree, and gives a reference to its root. -/
def addTree (f : Forest) (t : Tree) : NodeRef × Forest :=
  (⟨f.trees.length, 0⟩, { f with trees := f.trees ++ [t] })

/-- Puts a tree into the place of another one. -/
def setTree (f : Forest) (id : TreeId) (t : Tree) : Forest :=
  { f with trees := f.trees.set id t }

/-! ## Nesting -/

/-- The trees nested directly in a tree. -/
def nestedIn (f : Forest) (id : TreeId) : List TreeId :=
  match f.tree? id with
  | some t => t.nestedTrees
  | none => []

/-- A tree and the trees nested in it at any depth. -/
def nestingClosure (f : Forest) (id : TreeId) : List TreeId :=
  Graph.preorder f.nestedIn f.trees.length id

/-- Whether a tree is another one or nests it at any depth. -/
def contains (f : Forest) (outer inner : TreeId) : Bool := inner ∈ f.nestingClosure outer

/-! ## Handles -/

/-- The node that a handle holds. -/
def handle? (f : Forest) (name : String) : Option NodeRef := f.handles.lookup name

/-- Holds a node by a name, in place of what the name held before. -/
def hold (f : Forest) (name : String) (r : NodeRef) : Forest :=
  { f with handles := (name, r) :: f.handles.filter (·.1 ≠ name) }

/-- Lets a handle go. -/
def release (f : Forest) (name : String) : Forest :=
  { f with handles := f.handles.filter (·.1 ≠ name) }

/-- Whether a tree lives. -/
def isAlive (f : Forest) (id : TreeId) : Bool :=
  f.handles.any fun (_, r) => f.contains r.tree id

end Forest

end QueryForest
