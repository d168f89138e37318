import QueryForest.Sql.Dialect
import QueryForest.Sql.Syntax

set_option autoImplicit false

/-!
# Queries as pieces

A query is written as a sequence of pieces: text, and values in the places where they are bound.
The text depends on the dialect; no value ever becomes part of it. `Output` lays the pieces out,
and only there a value turns into the mark of a parameter, numbered by the values before it.
-/

namespace QueryForest.Sql

/-- A piece of a query: text, or a value that is bound in this place. -/
inductive Piece where
  | text (s : String)
  | value (v : Value)

/-- Pieces with commas between them. -/
def commaSeparated (items : List (List Piece)) : List Piece :=
  List.intercalate [.text ", "] items

/-- The word for a negation, or nothing. -/
def notWord (negated : Bool) : String := if negated then " NOT" else ""

/-- A name behind its qualifier. -/
def qualified (d : Dialect) (qualifier : Option String) (name : String) : List Piece :=
  match qualifier with
  | some q => [.text (d.quote q), .text ".", .text name]
  | none => [.text name]

/-- The alias of a table. -/
def tableAlias (d : Dialect) : Option String → List Piece
  | some aliasName => [.text d.aliasSeparator, .text (d.quote aliasName)]
  | none => []

def NullsPlace.pieces : NullsPlace → List Piece
  | unspecified => []
  | first => [.text " NULLS FIRST"]
  | last => [.text " NULLS LAST"]

def directionPieces : Option Direction → List Piece
  | some dir => [.text " ", .text dir.sql]
  | none => []

/-- A clause of a list of items; nothing when the list is empty. -/
def listClause (keyword : String) (items : List (List Piece)) : List Piece :=
  if items.isEmpty then [] else .text keyword :: commaSeparated items

mutual

def Expr.pieces (d : Dialect) : Expr → List Piece
  | .name qualifier name => qualified d qualifier (d.quote name)
  | .wildcard qualifier => qualified d qualifier "*"
  | .value v => [.value v]
  | .literal text => [.text text]
  | .binary left op right =>
    .text "(" :: left.pieces d ++ .text (" " ++ op.sql ++ " ") :: right.pieces d ++ [.text ")"]
  | .call function args wildcard distinct =>
    .text function :: .text "(" ::
      (if wildcard then [.text "*"]
        else (if distinct then [.text "DISTINCT "] else []) ++
          commaSeparated (exprPieces d args)) ++
      [.text ")"]
  | .aliased expr aliasName => expr.pieces d ++ [.text " AS ", .text (d.quote aliasName)]
  | .inList expr items negated =>
    expr.pieces d ++ .text (notWord negated ++ " IN (") :: commaSeparated (exprPieces d items) ++
      [.text ")"]
  | .isNull expr negated =>
    expr.pieces d ++ [.text (if negated then " IS NOT NULL" else " IS NULL")]
  | .inSelect expr select negated =>
    expr.pieces d ++ .text (notWord negated ++ " IN (") :: select.pieces d ++ [.text ")"]
  | .existsSelect select negated =>
    .text (if negated then "NOT EXISTS (" else "EXISTS (") :: select.pieces d ++ [.text ")"]

def exprPieces (d : Dialect) : List Expr → List (List Piece)
  | [] => []
  | e :: es => e.pieces d :: exprPieces d es

/-- A clause of one expression, if it is there. -/
def clausePieces (d : Dialect) (keyword : String) : Option Expr → List Piece
  | none => []
  | some e => .text keyword :: e.pieces d

def Select.pieces (d : Dialect) : Select → List Piece
  | { columns, source, joins, condition, groups, having, order, limit, offset } =>
    .text "SELECT " :: commaSeparated (exprPieces d columns) ++
      sourcePieces d source ++
      joinsPieces d joins ++
      clausePieces d " WHERE " condition ++
      listClause " GROUP BY " (exprPieces d groups) ++
      clausePieces d " HAVING " having ++
      listClause " ORDER BY " (orderPieces d order) ++
      clausePieces d " LIMIT " limit ++
      clausePieces d " OFFSET " offset

def TableSource.pieces (d : Dialect) : TableSource → List Piece
  | .table schema name => qualified d schema (d.quote name)
  | .select s => .text "(" :: s.pieces d ++ [.text ")"]

/-- A table with its alias. -/
def FromItem.pieces (d : Dialect) : FromItem → List Piece
  | { source, aliasName } => source.pieces d ++ tableAlias d aliasName

def sourcePieces (d : Dialect) : Option FromItem → List Piece
  | none => []
  | some item => .text " FROM " :: item.pieces d

def JoinItem.pieces (d : Dialect) : JoinItem → List Piece
  | { kind, source, aliasName, on } =>
    .text kind.sql :: .text " " :: source.pieces d ++ tableAlias d aliasName ++
      .text " ON " :: on.pieces d

def joinsPieces (d : Dialect) : List JoinItem → List Piece
  | [] => []
  | j :: js => .text " " :: j.pieces d ++ joinsPieces d js

def OrderItem.pieces (d : Dialect) : OrderItem → List Piece
  | { expr, direction, nulls, ignoreCase } =>
    (if ignoreCase then .text d.foldFunction :: .text "(" :: expr.pieces d ++ [.text ")"]
      else expr.pieces d) ++ directionPieces direction ++ nulls.pieces

def orderPieces (d : Dialect) : List OrderItem → List (List Piece)
  | [] => []
  | o :: os => o.pieces d :: orderPieces d os

end

/-! ## Layout -/

/-- Laid out pieces: the text, and the values that its parameters are bound to. -/
structure Output where
  sql : String := ""
  params : List Value := []

namespace Output

/-- Lays out one more piece. -/
def write (d : Dialect) (o : Output) : Piece → Output
  | .text s => { o with sql := o.sql ++ s }
  | .value v => ⟨o.sql ++ d.placeholder o.params.length, o.params ++ [v]⟩

/-- Lays out pieces one after the other. -/
def writeAll (d : Dialect) (o : Output) (pieces : List Piece) : Output :=
  pieces.foldl (write d) o

end Output

end QueryForest.Sql
