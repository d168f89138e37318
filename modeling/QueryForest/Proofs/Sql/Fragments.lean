import QueryForest.Proofs.Sql.Values
import QueryForest.Sql.Statement

set_option autoImplicit false

/-!
# Fragments as a statement

The fragments of a query are laid out one clause at a time, and its statement in one go. Since laying
out only appends, and counts parameters by the values that are there already, both come to the same
text clause by clause (`writeAll_ofSelect`). Only the tables can differ: a fragment of them is trimmed
at its start, which takes a blank from the name of a table when nothing is written before the name.
-/

namespace QueryForest.Sql

/-! ## Trimmed texts -/

/-- Whether a text begins with a blank. -/
def beginsBlank (s : String) : Bool := s.toList.head?.any Text.isBlank

theorem trimStart_eq_self_iff {s : String} : Text.trimStart s = s ↔ beginsBlank s = false := by
  have chars : Text.trimStart s = s ↔ s.toList.dropWhile Text.isBlank = s.toList := by
    unfold Text.trimStart Text.dropBlanks
    rw [← String.toList_inj, String.toList_ofList]
  rw [chars, beginsBlank]
  cases s.toList with
  | nil => simp
  | cons c rest =>
      by_cases blank : Text.isBlank c
      · -- What is left of the text is shorter.
        have shorter := (List.dropWhile_suffix Text.isBlank (l := rest)).length_le
        have other : rest.dropWhile Text.isBlank ≠ c :: rest := by
          intro same
          have length := congrArg List.length same
          rw [List.length_cons] at length
          omega
        simp [blank, other]
      · simp [blank]

theorem beginsBlank_append {s : String} (written : s ≠ "") (rest : String) :
    beginsBlank (s ++ rest) = beginsBlank s := by
  unfold beginsBlank
  rw [String.toList_append]
  cases chars : s.toList with
  | nil => exact absurd (String.toList_eq_nil_iff.mp chars) written
  | cons c more => rfl

/-- No mark around names is a blank. -/
theorem Dialect.isBlank_quoteMark (d : Dialect) {mark : Char} (h : d.quoteMark? = some mark) :
    Text.isBlank mark = false := by
  cases d with
  | ansi => exact absurd h (by simp [quoteMark?])
  | postgres =>
      obtain rfl := Option.some.inj h
      decide
  | mysql =>
      obtain rfl := Option.some.inj h
      decide

theorem Dialect.aliasSeparator_bare (d : Dialect) (h : d.quoteMark? = none) :
    d.aliasSeparator = " " := by
  cases d with
  | ansi => rfl
  | postgres => exact absurd h (by simp [quoteMark?])
  | mysql => exact absurd h (by simp [quoteMark?])

/-! ## Laying out clause by clause -/

variable {d : Dialect}

theorem writeAll_append (d : Dialect) (o : Output) (pieces rest : List Piece) :
    Output.writeAll d o (pieces ++ rest) = Output.writeAll d (Output.writeAll d o pieces) rest :=
  List.foldl_append

/-- Laying out appends what is captured when the parameters are counted on. -/
theorem writeAll_capture (d : Dialect) (o : Output) (pieces : List Piece) :
    Output.writeAll d o pieces = ⟨o.sql ++ (Fragments.capture d o.params pieces).sql,
      (Fragments.capture d o.params pieces).params⟩ := by
  unfold Fragments.capture
  rw [writeAll_eq, writeAll_eq]
  simp

/-- A clause behind its keyword, if it is there. -/
def clauseText (keyword : String) : Option String → String
  | none => ""
  | some text => keyword ++ text

/-- What is written for a clause that may be missing. -/
theorem writeAll_clause (d : Dialect) (o : Output) (keyword : String) (clause : Option (List Piece)) :
    Output.writeAll d o (clause.elim [] (.text keyword :: ·))
      = ⟨o.sql ++ clauseText keyword (Fragments.captureOption d o.params clause).1,
        (Fragments.captureOption d o.params clause).2⟩ := by
  cases clause with
  | none => simp [Output.writeAll, clauseText, Fragments.captureOption]
  | some pieces =>
      have behind : Output.writeAll d o (.text keyword :: pieces)
          = Output.writeAll d ⟨o.sql ++ keyword, o.params⟩ pieces := rfl
      show Output.writeAll d o (.text keyword :: pieces) = _
      rw [behind, writeAll_capture]
      simp [clauseText, Fragments.captureOption, String.append_assoc]

theorem clausePieces_elim (keyword : String) (e : Option Expr) :
    clausePieces d keyword e = (e.map (·.pieces d)).elim [] (.text keyword :: ·) := by
  cases e <;> rfl

theorem listClause_elim (keyword : String) (items : List (List Piece)) :
    listClause keyword items = (Fragments.listPieces? items).elim [] (.text keyword :: ·) := by
  unfold listClause Fragments.listPieces?
  split <;> rfl

/-- A number of rows is written as the next parameter. -/
theorem writeAll_count (d : Dialect) (o : Output) (keyword : String) (count : Option UInt64) :
    Output.writeAll d o (clausePieces d keyword (count.map fun n => .value (.uint n)))
      = ⟨o.sql ++ clauseText keyword (count.map fun _ => d.placeholder o.params.length),
        o.params ++ count.toList.map .uint⟩ := by
  cases count with
  | none => simp [Output.writeAll, clausePieces, clauseText]
  | some n => simp [Output.writeAll, Output.write, clausePieces, Expr.pieces, clauseText, String.append_assoc]

namespace Fragments

/-- The text of the tables of a query, as it stands behind the columns. -/
def tables (d : Dialect) (s : Select) : String :=
  (capture d (capture d [] (commaSeparated (exprPieces d s.columns))).params (tablePieces d s)).sql

/-- The text that some fragments make with the text of their tables. The limit and the offset are the
parameters behind those of the fragments. -/
def statementText (d : Dialect) (fragments : Fragments) (tables : String)
    (limit offset : Option UInt64) : String :=
  "SELECT " ++ fragments.select ++ " FROM " ++ tables ++ clauseText " WHERE " fragments.condition ++
    clauseText " GROUP BY " fragments.groups ++ clauseText " HAVING " fragments.having ++
    clauseText " ORDER BY " fragments.order ++
    clauseText " LIMIT " (limit.map fun _ => d.placeholder fragments.params.length) ++
    clauseText " OFFSET "
      (offset.map fun _ => d.placeholder (fragments.params.length + limit.toList.length))

/-- Another text of the tables makes another statement. -/
theorem statementText_inj {fragments : Fragments} {limit offset : Option UInt64} {a b : String} :
    fragments.statementText d a limit offset = fragments.statementText d b limit offset ↔ a = b := by
  unfold statementText
  simp only [String.append_right_inj, String.append_left_inj]

theorem capture_text (d : Dialect) (params : List Value) (s : String) (rest : List Piece) :
    (capture d params (.text s :: rest)).sql = s ++ (capture d params rest).sql := by
  have behind : capture d params (.text s :: rest) = Output.writeAll d ⟨"" ++ s, params⟩ rest := rfl
  rw [behind, writeAll_capture, String.empty_append]

theorem source_ofSelect (d : Dialect) (s : Select) :
    (ofSelect d s).source = Text.trimStart (tables d s) := rfl

/-- No parameters come before the tables, since columns bind no values. -/
theorem capture_columns (d : Dialect) {columns : List Expr} (shown : ∀ e ∈ columns, e.Shown) :
    (capture d [] (commaSeparated (exprPieces d columns))).params = [] := by
  unfold capture
  rw [writeAll_eq, exprPieces_eq, commaSeparated_map, valuesOf_tokens, valuesIn_commaTokens,
    valuesIn_exprTokens]
  exact List.append_eq_nil_iff.mpr ⟨rfl, List.flatMap_eq_nil_iff.mpr fun e he => (shown e he).values⟩

/-- Queries with the same tables write them as the same text, whatever their columns are. -/
theorem tables_congr (d : Dialect) {s s' : Select} (source : s'.source = s.source)
    (joins : s'.joins = s.joins) (shown : ∀ e ∈ s.columns, e.Shown)
    (shown' : ∀ e ∈ s'.columns, e.Shown) : tables d s' = tables d s := by
  unfold tables tablePieces
  rw [capture_columns d shown, capture_columns d shown', source, joins]

/-- A query in the place of the first table is written in parentheses. -/
theorem tables_select {s inner : Select} {aliasName : Option String}
    (source : s.source = some ⟨.select inner, aliasName⟩) :
    beginsBlank (tables d s) = false := by
  unfold tables tablePieces
  rw [source]
  simp only [FromItem.pieces, TableSource.pieces, List.cons_append, capture_text]
  exact beginsBlank_append (by decide) _

/-- A name begins with a blank when nothing is written before it, and otherwise with a mark. -/
theorem tables_table {s : Select} {name aliasName : String}
    (source : s.source = some ⟨.table none name, some aliasName⟩) :
    beginsBlank (tables d s) = true ↔ d.quoteMark? = none ∧ (name = "" ∨ beginsBlank name = true) := by
  unfold tables tablePieces
  rw [source]
  simp only [FromItem.pieces, TableSource.pieces, qualified, tableAlias, List.cons_append,
    List.nil_append, capture_text]
  cases quoted : d.quoteMark? with
  | some mark =>
      have enclosed : d.quote name = Text.enclosed mark name := by rw [Dialect.quote, quoted]
      have first : beginsBlank (Text.enclosed mark name) = Text.isBlank mark := by
        rw [beginsBlank, Text.enclosed, String.toList_ofList]
        rfl
      have written : Text.enclosed mark name ≠ "" := by
        intro empty
        have none := String.toList_eq_nil_iff.mpr empty
        rw [Text.enclosed, String.toList_ofList] at none
        exact absurd none (by simp)
      rw [enclosed, beginsBlank_append written, first, d.isBlank_quoteMark quoted]
      simp
  | none =>
      have bare : d.quote name = name := by rw [Dialect.quote, quoted]
      have blank : d.aliasSeparator = " " := d.aliasSeparator_bare quoted
      rw [bare]
      by_cases empty : name = ""
      · -- Nothing comes before the blank that stands before the alias.
        rw [empty, String.empty_append, blank, beginsBlank_append (by decide)]
        exact ⟨fun _ => ⟨rfl, Or.inl rfl⟩, fun _ => by decide⟩
      · rw [beginsBlank_append empty]
        simp [empty]

end Fragments

/-- The clauses of a query that has a table. -/
theorem Select.pieces_clauses {s : Select} {item : FromItem} (source : s.source = some item) :
    s.pieces d = [.text "SELECT "] ++ commaSeparated (exprPieces d s.columns) ++ [.text " FROM "] ++
      Fragments.tablePieces d s ++ clausePieces d " WHERE " s.condition ++
      listClause " GROUP BY " (exprPieces d s.groups) ++ clausePieces d " HAVING " s.having ++
      listClause " ORDER BY " (orderPieces d s.order) ++ clausePieces d " LIMIT " s.limit ++
      clausePieces d " OFFSET " s.offset := by
  obtain ⟨columns, _, joins, condition, groups, having, order, limit, offset⟩ := s
  obtain rfl : _ = some item := source
  simp [Select.pieces, sourcePieces, Fragments.tablePieces]

/-- **The statement of a query is put together from its fragments**, with the tables as they are
before they are trimmed. -/
theorem writeAll_ofSelect (d : Dialect) {s : Select} {item : FromItem} (source : s.source = some item)
    {limit offset : Option UInt64} (hlimit : s.limit = limit.map fun n => .value (.uint n))
    (hoffset : s.offset = offset.map fun n => .value (.uint n)) :
    Output.writeAll d {} (s.pieces d)
      = ⟨(Fragments.ofSelect d s).statementText d (Fragments.tables d s) limit offset,
        (Fragments.ofSelect d s).params ++ limit.toList.map .uint ++ offset.toList.map .uint⟩ := by
  rw [Select.pieces_clauses source, hlimit, hoffset]
  simp only [writeAll_append, clausePieces_elim _ s.condition, clausePieces_elim _ s.having,
    listClause_elim, writeAll_count, writeAll_clause]
  have text (o : Output) (word : String) :
      Output.writeAll d o [.text word] = ⟨o.sql ++ word, o.params⟩ := rfl
  simp only [text, writeAll_capture d _ (commaSeparated _),
    writeAll_capture d _ (Fragments.tablePieces d s)]
  -- The parameter of the offset comes behind the one of the limit.
  simp only [String.empty_append, List.length_append, List.length_map]
  rfl

end QueryForest.Sql
