import QueryForest.Sql.Pieces

set_option autoImplicit false

/-!
# Queries as tokens

A query before a dialect gives names, marks and aliases their form: a sequence of words, names and
values. `pieces_eq` says that the pieces of a query in a dialect are its tokens, each in the form of
this dialect. So what a query is written as depends on the dialect token by token, and the values in
it do not depend on the dialect at all.

The tokens of each construct stand in the order of its pieces, one function for each of theirs.
-/

namespace QueryForest.Sql

/-- What is written, without the form that a dialect gives to it. -/
inductive Token where
  | text (s : String)
  | name (n : String)
  | value (v : Value)
  /-- What stands between a table and its alias. -/
  | tableAlias

/-- A token in the form of a dialect. -/
def Token.piece (d : Dialect) : Token → Piece
  | text s => .text s
  | name n => .text (d.quote n)
  | value v => .value v
  | tableAlias => .text d.aliasSeparator

/-! ## Tokens of queries -/

/-- Tokens with commas between them. -/
def commaTokens (items : List (List Token)) : List Token := List.intercalate [.text ", "] items

/-- A token behind its qualifier. -/
def qualifiedTokens (qualifier : Option String) (last : Token) : List Token :=
  match qualifier with
  | some q => [.name q, .text ".", last]
  | none => [last]

def aliasTokens : Option String → List Token
  | some aliasName => [.tableAlias, .name aliasName]
  | none => []

def NullsPlace.tokens : NullsPlace → List Token
  | unspecified => []
  | first => [.text " NULLS FIRST"]
  | last => [.text " NULLS LAST"]

def directionTokens : Option Direction → List Token
  | some dir => [.text " ", .text dir.sql]
  | none => []

/-- A clause of a list of items; nothing when the list is empty. -/
def listTokens (keyword : String) (items : List (List Token)) : List Token :=
  if items.isEmpty then [] else .text keyword :: commaTokens items

mutual

def Expr.tokens : Expr → List Token
  | .name qualifier name => qualifiedTokens qualifier (.name name)
  | .wildcard qualifier => qualifiedTokens qualifier (.text "*")
  | .value v => [.value v]
  | .literal text => [.text text]
  | .binary left op right =>
    .text "(" :: left.tokens ++ .text (" " ++ op.sql ++ " ") :: right.tokens ++ [.text ")"]
  | .call function args wildcard distinct =>
    .text function :: .text "(" ::
      (if wildcard then [.text "*"]
        else (if distinct then [.text "DISTINCT "] else []) ++ commaTokens (exprTokens args)) ++
      [.text ")"]
  | .aliased expr aliasName => expr.tokens ++ [.text " AS ", .name aliasName]
  | .inList expr items negated =>
    expr.tokens ++ .text (notWord negated ++ " IN (") :: commaTokens (exprTokens items) ++
      [.text ")"]
  | .isNull expr negated =>
    expr.tokens ++ [.text (if negated then " IS NOT NULL" else " IS NULL")]
  | .inSelect expr select negated =>
    expr.tokens ++ .text (notWord negated ++ " IN (") :: select.tokens ++ [.text ")"]
  | .existsSelect select negated =>
    .text (if negated then "NOT EXISTS (" else "EXISTS (") :: select.tokens ++ [.text ")"]

def exprTokens : List Expr → List (List Token)
  | [] => []
  | e :: es => e.tokens :: exprTokens es

/-- A clause of one expression, if it is there. -/
def clauseTokens (keyword : String) : Option Expr → List Token
  | none => []
  | some e => .text keyword :: e.tokens

def Select.tokens : Select → List Token
  | { columns, source, joins, condition, groups, having, order, limit, offset } =>
    .text "SELECT " :: commaTokens (exprTokens columns) ++
      sourceTokens source ++
      joinsTokens joins ++
      clauseTokens " WHERE " condition ++
      listTokens " GROUP BY " (exprTokens groups) ++
      clauseTokens " HAVING " having ++
      listTokens " ORDER BY " (orderTokens order) ++
      clauseTokens " LIMIT " limit ++
      clauseTokens " OFFSET " offset

def TableSource.tokens : TableSource → List Token
  | .table schema name => qualifiedTokens schema (.name name)
  | .select s => .text "(" :: s.tokens ++ [.text ")"]

def FromItem.tokens : FromItem → List Token
  | { source, aliasName } => source.tokens ++ aliasTokens aliasName

def sourceTokens : Option FromItem → List Token
  | none => []
  | some item => .text " FROM " :: item.tokens

def JoinItem.tokens : JoinItem → List Token
  | { kind, source, aliasName, on } =>
    .text kind.sql :: .text " " :: source.tokens ++ aliasTokens aliasName ++
      .text " ON " :: on.tokens

def joinsTokens : List JoinItem → List Token
  | [] => []
  | j :: js => .text " " :: j.tokens ++ joinsTokens js

def OrderItem.tokens : OrderItem → List Token
  | { expr, direction, nulls, ignoreCase } =>
    (if ignoreCase then .text "LOWER" :: .text "(" :: expr.tokens ++ [.text ")"]
      else expr.tokens) ++ directionTokens direction ++ nulls.tokens

def orderTokens : List OrderItem → List (List Token)
  | [] => []
  | o :: os => o.tokens :: orderTokens os

end

theorem exprTokens_eq (es : List Expr) : exprTokens es = es.map Expr.tokens := by
  induction es with
  | nil => rfl
  | cons e es ih => rw [exprTokens, ih, List.map_cons]

theorem orderTokens_eq (os : List OrderItem) : orderTokens os = os.map OrderItem.tokens := by
  induction os with
  | nil => rfl
  | cons o os ih => rw [orderTokens, ih, List.map_cons]

/-! ## Pieces from tokens -/

/-- A function of elements passes through separators. -/
theorem map_intercalate {α β : Type} (f : α → β) (separator : List α) (items : List (List α)) :
    (List.intercalate separator items).map f
      = List.intercalate (separator.map f) (items.map (List.map f)) := by
  induction items with
  | nil => rfl
  | cons first rest ih =>
      cases rest with
      | nil => simp [List.intercalate]
      | cons second rest => simp_all [List.intercalate]

variable (d : Dialect)

theorem commaSeparated_map (items : List (List Token)) :
    commaSeparated (items.map (List.map (Token.piece d)))
      = (commaTokens items).map (Token.piece d) := by
  rw [commaSeparated, commaTokens, map_intercalate]
  rfl

theorem listClause_map (keyword : String) (items : List (List Token)) :
    listClause keyword (items.map (List.map (Token.piece d)))
      = (listTokens keyword items).map (Token.piece d) := by
  unfold listClause listTokens
  rw [List.isEmpty_map, commaSeparated_map]
  split <;> rfl

theorem tableAlias_eq (aliasName : Option String) :
    tableAlias d aliasName = (aliasTokens aliasName).map (Token.piece d) := by
  cases aliasName <;> rfl

theorem directionPieces_eq (direction : Option Direction) :
    directionPieces direction = (directionTokens direction).map (Token.piece d) := by
  cases direction <;> rfl

theorem NullsPlace.pieces_eq (nulls : NullsPlace) :
    nulls.pieces = nulls.tokens.map (Token.piece d) := by
  cases nulls <;> rfl

mutual

/-- **The pieces of an expression are its tokens in the form of the dialect.** So it is for all
parts of a query. -/
theorem Expr.pieces_eq : (e : Expr) → e.pieces d = e.tokens.map (Token.piece d)
  | .name qualifier _ => by cases qualifier <;> rfl
  | .wildcard qualifier => by cases qualifier <;> rfl
  | .value _ => rfl
  | .literal _ => rfl
  | .binary left op right => by
      simp [Expr.pieces, Expr.tokens, left.pieces_eq, right.pieces_eq, Token.piece]
  | .call function args wildcard distinct => by
      simp only [Expr.pieces, Expr.tokens, exprPieces_eq args, commaSeparated_map]
      cases wildcard <;> cases distinct <;> simp [Token.piece]
  | .aliased e aliasName => by simp [Expr.pieces, Expr.tokens, e.pieces_eq, Token.piece]
  | .inList e items negated => by
      simp [Expr.pieces, Expr.tokens, e.pieces_eq, exprPieces_eq items, commaSeparated_map,
        Token.piece]
  | .isNull e negated => by simp [Expr.pieces, Expr.tokens, e.pieces_eq, Token.piece]
  | .inSelect e s negated => by
      simp [Expr.pieces, Expr.tokens, e.pieces_eq, s.pieces_eq, Token.piece]
  | .existsSelect s negated => by simp [Expr.pieces, Expr.tokens, s.pieces_eq, Token.piece]

theorem exprPieces_eq : (es : List Expr) →
    exprPieces d es = (exprTokens es).map (List.map (Token.piece d))
  | [] => rfl
  | e :: es => by simp [exprPieces, exprTokens, e.pieces_eq, exprPieces_eq es]

theorem clausePieces_eq (keyword : String) : (e : Option Expr) →
    clausePieces d keyword e = (clauseTokens keyword e).map (Token.piece d)
  | none => rfl
  | some e => by simp [clausePieces, clauseTokens, e.pieces_eq, Token.piece]

theorem Select.pieces_eq : (s : Select) → s.pieces d = s.tokens.map (Token.piece d)
  | { columns, source, joins, condition, groups, having, order, limit, offset } => by
      simp [Select.pieces, Select.tokens, exprPieces_eq columns, sourcePieces_eq source,
        joinsPieces_eq joins, clausePieces_eq _ condition, exprPieces_eq groups,
        clausePieces_eq _ having, orderPieces_eq order, clausePieces_eq _ limit,
        clausePieces_eq _ offset, commaSeparated_map, listClause_map, Token.piece]

theorem TableSource.pieces_eq : (s : TableSource) → s.pieces d = s.tokens.map (Token.piece d)
  | .table schema _ => by cases schema <;> rfl
  | .select s => by simp [TableSource.pieces, TableSource.tokens, s.pieces_eq, Token.piece]

theorem FromItem.pieces_eq : (item : FromItem) → item.pieces d = item.tokens.map (Token.piece d)
  | { source, aliasName } => by
      simp [FromItem.pieces, FromItem.tokens, source.pieces_eq, tableAlias_eq]

theorem sourcePieces_eq : (item : Option FromItem) →
    sourcePieces d item = (sourceTokens item).map (Token.piece d)
  | none => rfl
  | some item => by simp [sourcePieces, sourceTokens, item.pieces_eq, Token.piece]

theorem JoinItem.pieces_eq : (j : JoinItem) → j.pieces d = j.tokens.map (Token.piece d)
  | { kind, source, aliasName, on } => by
      simp [JoinItem.pieces, JoinItem.tokens, source.pieces_eq, on.pieces_eq, tableAlias_eq,
        Token.piece]

theorem joinsPieces_eq : (js : List JoinItem) →
    joinsPieces d js = (joinsTokens js).map (Token.piece d)
  | [] => rfl
  | j :: js => by simp [joinsPieces, joinsTokens, j.pieces_eq, joinsPieces_eq js, Token.piece]

theorem OrderItem.pieces_eq : (o : OrderItem) → o.pieces d = o.tokens.map (Token.piece d)
  | { expr, direction, nulls, ignoreCase } => by
      cases ignoreCase <;>
        simp [OrderItem.pieces, OrderItem.tokens, expr.pieces_eq, directionPieces_eq d,
          NullsPlace.pieces_eq d, Token.piece, Dialect.foldFunction]

theorem orderPieces_eq : (os : List OrderItem) →
    orderPieces d os = (orderTokens os).map (List.map (Token.piece d))
  | [] => rfl
  | o :: os => by simp [orderPieces, orderTokens, o.pieces_eq, orderPieces_eq os]

end

end QueryForest.Sql
