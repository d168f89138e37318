import QueryForest.Forest.Select
import QueryForest.Proofs.Forest.Runs
import QueryForest.Proofs.Tree.Erasure

set_option autoImplicit false

/-!
# Forests and calls without their values

`Action.erased` has one and the same value in the place of every value that an action binds, and
`Forest.erased` in the place of every value in the trees. Two runs that only differ in the values
which they bind are the same once these are erased. The lemmas say of each small step on a tree that
it does to an erased tree what it does to the tree.
-/

namespace QueryForest

open Sql (Select)

/-! ## Erased forests and calls -/

namespace Forest

/-- A forest without its values. -/
def erased (f : Forest) : Forest := { f with trees := f.trees.map Tree.erased }

end Forest

/-- A change without the values that it binds. A list keeps its length. -/
def Change.erased : Change → Change
  | having function target comparison v => having function target comparison v.erased
  | compare target comparison v => compare target comparison v.erased
  | inList target values negated => inList target (values.map Value.erased) negated
  | limit _ => limit 0
  | offset _ => offset 0
  | other => other

def Call.erased : Call → Call
  | change node what => change node what.erased
  | other => other

def Action.erased : Action → Action
  | call what => call what.erased
  | other => other

@[simp] theorem Change.queries_erased (what : Change) : what.erased.queries = what.queries := by
  cases what <;> rfl

@[simp] theorem Action.nodes_erased (a : Action) : a.erased.nodes = a.nodes := by
  cases a with
  | call what =>
      cases what with
      | change node what => exact congrArg (node :: ·) what.queries_erased
      | _ => rfl
  | _ => rfl

def Edit.erased : Edit → Edit
  | having h => having h.erased
  | filter predicate => filter predicate.erased
  | limit _ => limit 0
  | offset _ => offset 0
  | other => other

/-- An erased edit does to an erased node what the edit does to the node. -/
theorem Edit.apply_erased (e : Edit) (n : Node) : e.erased.apply n.erased = (e.apply n).erased := by
  cases e with
  | select c aliasName =>
      show (if _ ∈ n.selected then _ else _) = (if _ ∈ n.selected then _ else _ : Node).erased
      split <;> rfl
  | exclude column =>
      show (if _ ∈ n.excluded then _ else _) = (if _ ∈ n.excluded then _ else _ : Node).erased
      split <;> rfl
  | having h => simp [erased, apply, Node.addHaving, Node.erased]
  | filter predicate => simp [erased, apply, Node.filter, Node.erased]
  | _ => rfl

namespace Tree

variable (t : Tree)

theorem modify_erased (id : NodeId) {change change' : Node → Node}
    (same : ∀ n : Node, change' n.erased = (change n).erased) :
    t.erased.modify id change' = (t.modify id change).erased := by
  unfold modify erased
  congr 1
  refine List.ext_getElem? fun k => ?_
  rw [List.getElem?_modify, List.getElem?_map, List.getElem?_map, List.getElem?_modify]
  cases t.nodes[k]? with
  | none => rfl
  | some n =>
      simp only [Option.map_some, Option.map_eq_map]
      split
      · exact congrArg some (same n)
      · rfl

@[simp] theorem resolve_erased (entity : Entity) (target : Target) :
    t.erased.resolve entity target = t.resolve entity target := rfl

theorem ofRoot_erased (mappings : Registry) (entity : Entity) (explicit : Option String)
    (reserved : List String) (result : ResultSettings) (outer : Option NodeRef) :
    (ofRoot mappings entity explicit reserved result outer).erased
      = ofRoot mappings entity explicit reserved result outer := rfl

theorem addNode_erased (n : Node) (aliases : AliasTable) :
    t.erased.addNode n.erased aliases = (t.addNode n aliases).erased := by
  simp [addNode, erased]

theorem addBranch_erased (id : NodeId) :
    t.erased.addBranch id = ((t.addBranch id).1, (t.addBranch id).2.erased) := by
  rw [addBranch_eq, addBranch_eq, length_erased, node_erased, ← addNode_erased]
  rfl

theorem addJoin_erased (reference : NodeId) (source : NodeSource) (kind : Sql.JoinKind)
    (explicit : Option String) :
    t.erased.addJoin reference source kind explicit
      = (t.addJoin reference source kind explicit).map fun made => (made.1, made.2.erased) := by
  have joined (aliasName : String) : t.erased.newJoin reference source kind aliasName
      = (t.newJoin reference source kind aliasName).erased := by
    unfold newJoin
    rw [node_erased, length_erased]
    rfl
  rw [addJoin_eq, addJoin_eq, length_erased]
  show (t.aliases.allocate _ _ _).map _ = _
  cases t.aliases.allocate source.entityOf.name explicit t.nodes.length with
  | error e => rfl
  | ok allocated =>
      simp only [Except.map, joined, addNode_erased]

theorem attach_erased (join parent : NodeId) :
    t.erased.attach join parent = (t.attach join parent).map Tree.erased := by
  unfold attach
  rw [node_erased, Node.join_erased, reaches_erased]
  cases (t.node join).join with
  | none => simp [Except.map]
  | some edge =>
      cases hparent : edge.parent with
      | some current => simp [Except.map, hparent]
      | none =>
          simp only [hparent]
          split
          · simp [Except.map]
          · have moved : t.erased.modify join
                  (fun n => { n with join := some { edge with parent := some parent } })
                = (t.modify join
                    fun n => { n with join := some { edge with parent := some parent } }).erased :=
              t.modify_erased join fun _ => rfl
            simp only [Except.map, moved, origin_erased]
            rfl

end Tree

namespace Forest

variable (f : Forest)

theorem tree?_erased (i : TreeId) : f.erased.tree? i = (f.tree? i).map Tree.erased :=
  List.getElem?_map

@[simp] theorem trees_erased : f.erased.trees.length = f.trees.length := List.length_map _

theorem node_erased (r : NodeRef) : f.erased.node r = (f.node r).erased := by
  unfold node
  rw [tree?_erased]
  cases f.tree? r.tree with
  | none => rfl
  | some t => exact t.node_erased r.node

theorem setTree_erased (i : TreeId) (t : Tree) :
    f.erased.setTree i t.erased = (f.setTree i t).erased := by
  simp [setTree, erased, List.map_set]

theorem addTree_erased (t : Tree) :
    f.erased.addTree t.erased = ((f.addTree t).1, (f.addTree t).2.erased) := by
  simp [addTree, erased]

/-- Erased values nest no queries. -/
theorem nestedIn_erased (i : TreeId) : f.erased.nestedIn i = f.nestedIn i := by
  unfold nestedIn
  rw [tree?_erased]
  cases f.tree? i with
  | none => rfl
  | some t => exact t.nestedTrees_erased

theorem contains_erased (outer inner : TreeId) :
    f.erased.contains outer inner = f.contains outer inner := by
  unfold contains nestingClosure
  rw [trees_erased, funext f.nestedIn_erased]

theorem isAlive_erased (i : TreeId) : f.erased.isAlive i = f.isAlive i := by
  unfold isAlive
  simp only [contains_erased]
  rfl

@[simp] theorem hasNode_erased (r : NodeRef) : f.erased.hasNode r = f.hasNode r := by
  unfold hasNode
  rw [tree?_erased]
  cases f.tree? r.tree <;> simp

end Forest

end QueryForest
