import QueryForest.Sql.Words
import QueryForest.Value.Basic

set_option autoImplicit false

/-!
# Queries

The expressions and the `SELECT` queries that statements are written from. Expressions and queries
contain each other: a query may stand in a filter and in the place of a table.
-/

namespace QueryForest.Sql

mutual

/-- An expression. -/
inductive Expr where
  /-- A name, behind the table that it belongs to. -/
  | name (qualifier : Option String) (name : String)
  /-- Every column, of one table or of all. -/
  | wildcard (qualifier : Option String)
  /-- A value bound to a parameter. -/
  | value (v : Value)
  /-- Text that is written as it is. -/
  | literal (text : String)
  | binary (left : Expr) (op : Operator) (right : Expr)
  /-- A function of arguments, or of `*` when `wildcard` is set. -/
  | call (function : String) (args : List Expr) (wildcard distinct : Bool)
  | aliased (expr : Expr) (aliasName : String)
  | inList (expr : Expr) (items : List Expr) (negated : Bool)
  | isNull (expr : Expr) (negated : Bool)
  | inSelect (expr : Expr) (select : Select) (negated : Bool)
  | existsSelect (select : Select) (negated : Bool)

/-- A query. -/
structure Select where
  columns : List Expr := []
  source : Option FromItem := none
  joins : List JoinItem := []
  condition : Option Expr := none
  groups : List Expr := []
  having : Option Expr := none
  order : List OrderItem := []
  limit : Option Expr := none
  offset : Option Expr := none

/-- What rows are read from: a table, or the result of another query. -/
inductive TableSource where
  | table (schema : Option String) (name : String)
  | select (s : Select)

/-- The table that a query begins with. -/
structure FromItem where
  source : TableSource
  aliasName : Option String

/-- A table joined to those before it. -/
structure JoinItem where
  kind : JoinKind
  source : TableSource
  aliasName : Option String
  on : Expr

/-- A sort key. -/
structure OrderItem where
  expr : Expr
  direction : Option Direction
  nulls : NullsPlace
  ignoreCase : Bool

end

instance : Inhabited Select := ⟨{}⟩

namespace Expr

/-- A column of the table that goes by an alias. -/
def column (aliasName column : String) : Expr := name (some aliasName) column

/-- An expression under an alias, if it has one. -/
def underAlias (e : Expr) : Option String → Expr
  | some aliasName => aliased e aliasName
  | none => e

/-- The conjunction of some predicates, the first ones innermost; nothing without predicates. -/
def conjunction : List Expr → Option Expr
  | [] => none
  | e :: es => some (es.foldl (fun acc next => binary acc .and next) e)

end Expr

end QueryForest.Sql
