import QueryForest.Proofs.Forest.Readable
import QueryForest.Proofs.Forest.Rendering
import QueryForest.Proofs.Sql.Fragments

set_option autoImplicit false

/-!
# Fragments and statements of nodes

The fragments of a node and its statement are laid out from the same query, so that they fail alike,
and the statement is made of the fragments with the limit and the offset behind them. There is one
exception: a table whose name begins with a blank, or is empty, loses this blank in the fragments when
the dialect does not quote names (`fragments_statement`).
-/

namespace QueryForest

open Sql

/-- Whether the tables of a node are written with a blank at their start: the dialect writes names as
they are, and the name of the table of the node begins with a blank, or is empty, so that the blank
before its alias comes first. -/
def Node.BlankFirst (n : Node) (d : Dialect) : Prop :=
  d.quoteMark? = none ∧ ∃ e, n.source = .entity e ∧ (e.table = "" ∨ beginsBlank e.table = true)

/-- What a query takes from its first node itself. -/
theorem Tree.select_root {t : Tree} {root : NodeId} {nested : NodeRef → Except QueryError Select}
    {s : Select} (h : t.select nested root = .ok s) :
    s.limit = (t.node root).limit.map (fun n => .value (.uint n)) ∧
    s.offset = (t.node root).offset.map (fun n => .value (.uint n)) ∧
    ∃ source, (t.node root).tableSource nested = .ok source ∧
      s.source = some ⟨source, some (t.node root).aliasName⟩ := by
  obtain ⟨rootPart, joined, assembled, rfl, -⟩ := write_ok (write_of_select h)
  obtain ⟨-, -, -, -, -, -, found⟩ := part_ok assembled.first
  exact ⟨rfl, rfl, rootPart.source, found, rfl⟩

theorem Node.beginsBlank_tables {n : Node} {nested : NodeRef → Except QueryError Select} {s : Select}
    {source : TableSource} (found : n.tableSource nested = .ok source)
    (first : s.source = some ⟨source, some n.aliasName⟩) (d : Dialect) :
    beginsBlank (Fragments.tables d s) = true ↔ n.BlankFirst d := by
  unfold Node.BlankFirst
  unfold tableSource at found
  split at found
  · next e entity =>
    obtain rfl := Except.ok.inj found
    rw [Fragments.tables_table first]
    refine and_congr_right fun _ => ⟨fun blank => ⟨e, entity, blank⟩, ?_⟩
    rintro ⟨e', entity', blank⟩
    obtain rfl := NodeSource.entity.inj (entity.symm.trans entity')
    exact blank
  · next query e nestedQuery =>
    obtain ⟨inner, -, found⟩ := Outcome.bind_ok found
    obtain rfl := Except.ok.inj found
    rw [Fragments.tables_select first]
    refine ⟨fun blank => absurd blank (by simp), ?_⟩
    rintro ⟨-, e', entity', -⟩
    exact absurd (nestedQuery.symm.trans entity') (by simp)

namespace Forest

variable {f : Forest} {d : Dialect} {r : NodeRef}

theorem fragments_error {e : QueryError} : f.fragments d r = .error e ↔ f.select r = .error e := by
  unfold fragments
  cases f.select r with
  | error e' =>
      exact ⟨fun h => congrArg _ (Except.error.inj h), fun h => congrArg _ (Except.error.inj h)⟩
  | ok s =>
      refine ⟨fun h => absurd h ?_, fun h => absurd h (by simp)⟩
      simp [bind, Except.bind, pure, Except.pure]

theorem fragments_ok {s : Select} (selected : f.select r = .ok s) :
    f.fragments d r = .ok (Fragments.ofSelect d s) := by
  unfold fragments
  rw [selected]
  rfl

/-- The query of a node is that of its tree, whatever the bound on the nesting. -/
theorem select_tree {s : Select} (selected : f.select r = .ok s) :
    ∃ t nested, f.tree? r.tree = some t ∧ t.select nested r.node = .ok s := by
  unfold select at selected
  cases depth : f.trees.length with
  | zero =>
      rw [depth] at selected
      exact absurd selected (by simp [selectWithin])
  | succ n =>
      rw [depth, selectWithin] at selected
      split at selected
      · next t ht => exact ⟨t, f.selectWithin n, ht, selected⟩
      · exact absurd selected (by simp)

/-- **The fragments of a node fail just as its statement does. If they do not, the statement is made
of them, with the text of the tables as it was before it was trimmed: that is the fragment of the
tables, unless the name of the first table stands bare and begins with a blank or is empty.** The limit
and the offset are the parameters behind those of the fragments. -/
theorem fragments_statement (f : Forest) (d : Dialect) (r : NodeRef) :
    (∀ e, f.fragments d r = .error e ↔ f.render d r = .error e) ∧
    ∀ statement, f.render d r = .ok statement → ∃ fragments tables,
      f.fragments d r = .ok fragments ∧ fragments.source = Text.trimStart tables ∧
      statement.sql = fragments.statementText d tables (f.node r).limit (f.node r).offset ∧
      statement.params = fragments.params ++ (f.node r).limit.toList.map .uint ++
        (f.node r).offset.toList.map .uint ∧
      (statement.sql
          = fragments.statementText d fragments.source (f.node r).limit (f.node r).offset ↔
        ¬ (f.node r).BlankFirst d) := by
  refine ⟨fun e => fragments_error.trans render_error.symm, fun statement made => ?_⟩
  obtain ⟨s, selected, sql, params⟩ := render_ok made
  obtain ⟨t, nested, ht, fromTree⟩ := select_tree selected
  obtain ⟨limit, offset, source, found, first⟩ := Tree.select_root fromTree
  have node : f.node r = t.node r.node := node_eq ht
  rw [← node] at limit offset found first
  have written := writeAll_ofSelect d first limit offset
  refine ⟨Fragments.ofSelect d s, Fragments.tables d s, fragments_ok selected, rfl, ?_, ?_, ?_⟩
  · rw [sql, written]
  · rw [params, written]
  · rw [sql, written, Fragments.statementText_inj, Fragments.source_ofSelect,
      ← Node.beginsBlank_tables found first d, Bool.not_eq_true, ← trimStart_eq_self_iff]
    exact eq_comm

/-- A page of a table whose name begins with a blank. -/
def indented : List Action :=
  [.call (.root {} ⟨"Under", "_9Zed", " zed table"⟩ none {}),
    .call (.change ⟨0, 0⟩ (.select (.column "x") none)),
    .call (.change ⟨0, 0⟩ (.compare (.column "customer_id") .eq (.int 7))),
    .call (.change ⟨0, 0⟩ (.limit 20)), .call (.change ⟨0, 0⟩ (.offset 40))]

/-- Between marks the blank stays, and the limit and the offset are the parameters behind that of the
condition. -/
theorem fragments_statement_indented : ∃ statement fragments,
    (empty.run indented).render .postgres ⟨0, 0⟩ = .ok statement ∧
      (empty.run indented).fragments .postgres ⟨0, 0⟩ = .ok fragments ∧
      statement.sql = fragments.statementText .postgres fragments.source (some 20) (some 40) ∧
      fragments.params = [.int 7] ∧ statement.params = [.int 7, .uint 20, .uint 40] := by
  obtain ⟨statement, made⟩ : ∃ statement,
      (empty.run indented).render .postgres ⟨0, 0⟩ = .ok statement := ⟨_, rfl⟩
  obtain ⟨fragments, tables, captured, -, -, params, whole⟩ :=
    (fragments_statement (empty.run indented) .postgres ⟨0, 0⟩).2 statement made
  have marked : ¬ ((empty.run indented).node ⟨0, 0⟩).BlankFirst .postgres :=
    fun blank => absurd blank.1 (by decide)
  have seven : fragments.params = [.int 7] := by
    obtain rfl := Except.ok.inj captured
    rfl
  exact ⟨statement, fragments, made, captured, whole.mpr marked, seven, by rw [params, seven]; rfl⟩

/-- Where names stand bare, the fragment of the tables is not what the statement has behind `FROM`: the
blank that the name begins with is lost. -/
theorem fragments_indented_bare : ∃ statement fragments,
    (empty.run indented).Reachable ∧
      (empty.run indented).render (.ansi .positional) ⟨0, 0⟩ = .ok statement ∧
      (empty.run indented).fragments (.ansi .positional) ⟨0, 0⟩ = .ok fragments ∧
      statement.sql = "SELECT z.x FROM  zed table z WHERE (z.customer_id = ?) LIMIT ? OFFSET ?" ∧
      fragments.source = "zed table z" ∧
      statement.sql ≠
        fragments.statementText (.ansi .positional) fragments.source (some 20) (some 40) := by
  refine ⟨_, _, ⟨indented, by decide, rfl⟩, rfl, rfl, ?_, ?_, ?_⟩
  · rfl
  · rfl
  · decide

end Forest

end QueryForest
