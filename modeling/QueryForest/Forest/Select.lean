import QueryForest.Forest.Basic
import QueryForest.Sql.Statement
import QueryForest.Tree.Select

set_option autoImplicit false

/-!
# Forests as statements

The query of a node with all the queries nested in it, and its layout as a statement or as
fragments. A tree is never nested in itself, so in a forest of `n` trees queries nest at most `n`
deep.
-/

namespace QueryForest.Forest

open Sql (Select Dialect Statement Fragments Output)

/-- The query of a node, when queries nest less than `depth` deep below it. -/
def selectWithin (f : Forest) : (depth : Nat) → NodeRef → Except QueryError Select
  | 0, r => .error (.cycle (f.node r).aliasName)
  | depth + 1, r =>
    match f.tree? r.tree with
    | some t => t.select (f.selectWithin depth) r.node
    | none => .error (.emptyProjection (f.node r).aliasName)

/-- The query of a node. -/
def select (f : Forest) (r : NodeRef) : Except QueryError Select :=
  f.selectWithin f.trees.length r

/-- The statement of a node. -/
def render (f : Forest) (d : Dialect) (r : NodeRef) : Except QueryError Statement := do
  let select ← f.select r
  let out := Output.writeAll d {} (select.pieces d)
  let result := (f.node r).result
  return ⟨out.sql, out.params, result.resultType, result.mapKey, result.mapType⟩

/-- The fragments of a node. -/
def fragments (f : Forest) (d : Dialect) (r : NodeRef) : Except QueryError Fragments := do
  return Fragments.ofSelect d (← f.select r)

end QueryForest.Forest
