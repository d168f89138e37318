import QueryForest.Text.Doubled

set_option autoImplicit false

/-!
# Dialects

What differs between databases in the text of a query: how names are quoted, how parameters are
marked, and what stands before the alias of a table.
-/

namespace QueryForest.Sql

/-- How parameters are marked in the plain dialect: `?`, or `:p1`, `:p2`, … -/
inductive PlaceholderStyle where
  | positional
  | named
  deriving DecidableEq

/-- A dialect. The plain one does not quote names. -/
inductive Dialect where
  | ansi (placeholders : PlaceholderStyle)
  | postgres
  | mysql
  deriving DecidableEq

namespace Dialect

def name : Dialect → String
  | ansi _ => "ANSI"
  | postgres => "PostgreSQL"
  | mysql => "MySQL"

/-- The mark around names, if the dialect quotes them. -/
def quoteMark? : Dialect → Option Char
  | ansi _ => none
  | postgres => some '"'
  | mysql => some '\x60'

/-- A name as it is written. -/
def quote (d : Dialect) (name : String) : String :=
  match d.quoteMark? with
  | none => name
  | some mark => Text.enclosed mark name

/-- The mark of the parameter at an index, which counts from zero. -/
def placeholder : Dialect → Nat → String
  | ansi .positional, _ => "?"
  | ansi .named, i => ":p" ++ toString (i + 1)
  | postgres, i => "$" ++ toString (i + 1)
  | mysql, _ => "?"

/-- What stands between a table and its alias. -/
def aliasSeparator : Dialect → String
  | ansi _ => " "
  | postgres | mysql => " AS "

/-- The function that makes sorting ignore case. -/
def foldFunction : Dialect → String
  | _ => "LOWER"

end Dialect

end QueryForest.Sql
