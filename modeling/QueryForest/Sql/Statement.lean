import QueryForest.Digest.Md5
import QueryForest.Sql.Pieces
import QueryForest.Text.Blank
import QueryForest.Value.Encoding

set_option autoImplicit false

/-!
# Statements and fragments

A query can be laid out as one statement or clause by clause. The fragments count their parameters
through from the first clause to the last, as the statement does.
-/

namespace QueryForest.Sql

/-- A statement for an executor: the text, the values of its parameters, and how the caller wants
the rows to be mapped. -/
structure Statement where
  sql : String
  params : List Value
  resultType : Option String
  mapKey : Option String
  mapType : Option String

namespace Statement

/-- A short name of the text, by which prepared statements can be found again. -/
def fingerprint (s : Statement) : String := Digest.md5Text s.sql

/-- The JSON text of a statement. -/
def jsonText (s : Statement) : String :=
  Json.objectText [("sql", Json.quote s.sql),
    ("params", Json.arrayText (s.params.map Value.jsonText)),
    ("result_type", Json.optionText s.resultType),
    ("map_key", Json.optionText s.mapKey),
    ("map_type", Json.optionText s.mapType)]

end Statement

/-- The text of each clause of a query without its keywords, and the values of the parameters. The
limit and the offset are left out. -/
structure Fragments where
  select : String
  source : String
  condition : Option String
  groups : Option String
  having : Option String
  order : Option String
  params : List Value

namespace Fragments

/-- Lays out some pieces as a text of their own, which counts parameters on from `params`. -/
def capture (d : Dialect) (params : List Value) (pieces : List Piece) : Output :=
  Output.writeAll d ⟨"", params⟩ pieces

/-- As `capture`, for a clause that may be missing. -/
def captureOption (d : Dialect) (params : List Value) :
    Option (List Piece) → Option String × List Value
  | none => (none, params)
  | some pieces =>
    let out := capture d params pieces
    (some out.sql, out.params)

/-- The items of a clause, unless there are none. -/
def listPieces? (items : List (List Piece)) : Option (List Piece) :=
  if items.isEmpty then none else some (commaSeparated items)

/-- The tables of a query: the first one, and each join after a blank. -/
def tablePieces (d : Dialect) (s : Select) : List Piece :=
  (match s.source with
    | some item => item.pieces d
    | none => []) ++ joinsPieces d s.joins

/-- The fragments of a query. Blanks at the start of its tables are dropped. -/
def ofSelect (d : Dialect) (s : Select) : Fragments :=
  let columns := capture d [] (commaSeparated (exprPieces d s.columns))
  let tables := capture d columns.params (tablePieces d s)
  let (condition, params) := captureOption d tables.params (s.condition.map (·.pieces d))
  let (groups, params) := captureOption d params (listPieces? (exprPieces d s.groups))
  let (having, params) := captureOption d params (s.having.map (·.pieces d))
  let (order, params) := captureOption d params (listPieces? (orderPieces d s.order))
  ⟨columns.sql, Text.trimStart tables.sql, condition, groups, having, order, params⟩

end Fragments

end QueryForest.Sql
