import QueryForest.Text.Inspected
import QueryForest.Tree.Basic

set_option autoImplicit false

/-!
# Descriptions of nodes

What is shown of a node to somebody who looks for a mistake.
-/

namespace QueryForest.Tree

/-- The entity, the alias and the place of a node. -/
def description (t : Tree) (id : NodeId) : String :=
  let n := t.node id
  "Criteria \x7b entity: " ++ Text.inspected n.entity.name ++
    ", alias: " ++ Text.inspected n.aliasName ++ ", id: " ++ toString id ++ " \x7d"

end QueryForest.Tree
