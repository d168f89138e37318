import QueryForest.Proofs.Tree.Columns

set_option autoImplicit false

/-!
# The names of results

The columns of a query go by names (`Expr.outputName?`), by which the keys of its rows and the queries
around it can speak of them. A property that is selected without an alias goes by its own name or by that
of its column, as the node says when the query is written (`Sound.select_plain`).
-/

namespace QueryForest

open Sql (Expr Select)

/-- The name that a column of a query goes by: its alias, or else the name of the column. -/
def Sql.Expr.outputName? : Expr → Option String
  | .aliased _ aliasName => some aliasName
  | .name _ column => some column
  | _ => none

namespace ColumnRef

variable {c : ColumnRef}

/-- The name that a column goes by without an alias of its own: its property where properties name the
results. -/
def resultName (c : ColumnRef) (propertyAsAlias : Bool) : String :=
  if propertyAsAlias then c.property.getD c.column else c.column

/-- The setting makes a difference unless the property has the name of its column. -/
theorem resultName_eq_iff {property : String} (h : c.property = some property) {on on' : Bool} :
    c.resultName on = c.resultName on' ↔ on = on' ∨ property = c.column := by
  unfold resultName
  rw [h]
  cases on <;> cases on' <;> simp [eq_comm]

/-- A column goes by its own name when properties do not name the results, or when there is no other name.
-/
theorem resultName_eq_column_iff {property : String} (h : c.property = some property) {on : Bool} :
    c.resultName on = c.column ↔ on = false ∨ property = c.column :=
  (resultName_eq_iff h : c.resultName on = c.resultName false ↔ _)

end ColumnRef

/-- A column without an alias of its own goes by the name that the node gives it. -/
theorem Node.outputName?_plain (n : Node) (c : ColumnRef) :
    ((n.columnExpr c.column).underAlias (n.outputAlias c none)).outputName?
      = some (c.resultName n.result.propertyAsAlias) := by
  unfold outputAlias ColumnRef.resultName
  rw [Option.none_or]
  cases n.result.propertyAsAlias with
  | false => rfl
  | true => cases c.property <;> rfl

namespace Tree

variable {t : Tree} {v root : NodeId} {property : String} {c : ColumnRef}

/-- A column that was named by a property has it. -/
theorem property_of_column (found : t.column v (.property property) = .ok c) :
    c.property = some property := by
  have same := target_of_column found
  unfold ColumnRef.target at same
  split at same
  · next has => rw [has, Target.property.inj same]
  · exact absurd same nofun

/-- Whether some changes on a node select a property without an alias, and none of them excludes its column
`c`. -/
structure SelectsPlainly (t : Tree) (v : NodeId) (changes : List Change) (property : String)
    (c : ColumnRef) : Prop where
  selected : .select (.property property) none ∈ changes
  found : t.column v (.property property) = .ok c
  kept : c.column ∉ exclusions (t.column v) changes

/-- What stands for the property in the query of its node. -/
def plainExpr (t : Tree) (v : NodeId) (c : ColumnRef) : Expr :=
  ((t.node v).columnExpr c.column).underAlias ((t.node v).outputAlias c none)

theorem plainExpr_isColumnOf (t : Tree) (v : NodeId) (c : ColumnRef) :
    (t.plainExpr v c).IsColumnOf (t.aliasOf v) c.column := ⟨_, rfl⟩

theorem outputName?_plainExpr (t : Tree) (v : NodeId) (c : ColumnRef) :
    (t.plainExpr v c).outputName? = some (c.resultName (t.node v).result.propertyAsAlias) :=
  (t.node v).outputName?_plain c

/-- **A property that is selected without an alias and is not excluded stands among the columns of the query
from its node.** -/
theorem Sound.select_plain (sound : t.Sound) (hroot : root < t.nodes.length)
    {changes : NodeId → List Change}
    (collects : ∀ v < t.nodes.length, (t.node v).Collects (t.column v) (changes v))
    {nested : NodeRef → Except QueryError Select} {s : Select} (h : t.select nested root = .ok s)
    (plain : t.SelectsPlainly root (changes root) property c) : t.plainExpr root c ∈ s.columns := by
  have asked : .column (.property property) none ∈ askedIn (changes root) :=
    List.mem_filterMap.mpr ⟨_, plain.selected, rfl⟩
  have written : (t.node root).askedExpr? (t.column root) (exclusions (t.column root) (changes root))
      (.column (.property property) none) = some (t.plainExpr root c) := by
    rw [Node.askedExpr?, plain.found]
    exact if_neg plain.kept
  have wanted : t.plainExpr root c ∈ t.wanted root (changes root) :=
    List.mem_filterMap.mpr ⟨_, mem_firsts.mpr ⟨asked, fun _ => List.not_mem_nil⟩, written⟩
  rw [(sound.select_projected hroot collects h).columns_eq]
  refine List.mem_flatMap.mpr ⟨root, sound.walk_cons hroot ▸ List.mem_cons_self, ?_⟩
  rw [if_pos (Or.inl rfl)]
  exact List.mem_append_left _ wanted

end Tree

end QueryForest
