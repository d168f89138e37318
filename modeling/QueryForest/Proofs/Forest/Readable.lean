import QueryForest.Forest.Select
import QueryForest.Proofs.Forest.Nesting
import QueryForest.Proofs.Forest.Parameters
import QueryForest.Proofs.Forest.Runs
import QueryForest.Proofs.Tree.Built

set_option autoImplicit false

/-!
# Statements tell their queries

In a dialect that quotes names, two nodes with the same statement have the same query, whatever their
names contain: no name can end its quotation and become a part of the statement.
-/

namespace QueryForest.Forest

open Sql

variable {f g : Forest} {r r' : NodeRef}

/-- The query of a node is built of queries that nest less deep. -/
theorem built_selectWithin {depth : Nat} {s : Select} (h : f.selectWithin depth r = .ok s) :
    Built depth s := by
  induction depth generalizing r s with
  | zero => exact absurd h (by simp [selectWithin])
  | succ depth ih =>
      rw [selectWithin] at h
      split at h
      · exact Tree.select_formed (fun _ _ made => ih made) h
      · exact absurd h (by simp)

/-- More depth than there are trees makes no difference. -/
theorem Sound.select_deep (h : f.Sound) (hr : f.hasNode r) {depth : Nat}
    (enough : f.trees.length ≤ depth) : f.select r = f.selectWithin depth r := by
  obtain ⟨t, ht⟩ := tree?_of_hasNode hr
  have most := h.rank_le ht
  exact h.selectWithin_eq hr _ _ most (Nat.le_trans most enough)

/-- What a statement is written from. -/
theorem render_ok {d : Dialect} {statement : Statement} (made : f.render d r = .ok statement) :
    ∃ s, f.select r = .ok s ∧ statement.sql = (Output.writeAll d {} (s.pieces d)).sql ∧
      statement.params = (Output.writeAll d {} (s.pieces d)).params := by
  obtain ⟨s, selected, made⟩ := Outcome.bind_ok made
  obtain rfl := Except.ok.inj made
  exact ⟨s, selected, rfl, rfl⟩

/-- **In a dialect that quotes names, a statement with its parameters tells its query**: nodes of any
two forests that callers can make have the same query if their statements have the same text and the
same parameters. There is no condition on what the names contain. -/
theorem query_of_statement (hf : f.Reachable) (hg : g.Reachable) (hr : f.hasNode r)
    (hr' : g.hasNode r') {d : Dialect} (quotes : d = .postgres ∨ d = .mysql)
    {statement statement' : Statement} (made : f.render d r = .ok statement)
    (made' : g.render d r' = .ok statement') (text : statement.sql = statement'.sql)
    (params : statement.params = statement'.params) :
    ∃ s, f.select r = .ok s ∧ g.select r' = .ok s := by
  obtain ⟨s, selected, sql, values⟩ := render_ok made
  obtain ⟨s', selected', sql', values'⟩ := render_ok made'
  obtain ⟨mark, quoted⟩ : ∃ mark, d.quoteMark? = some mark := by
    rcases quotes with rfl | rfl <;> exact ⟨_, rfl⟩
  -- The depth of the nesting is bounded by the size of the larger forest.
  let depth := max f.trees.length g.trees.length
  have built : Built depth s := by
    rw [hf.sound.select_deep hr (Nat.le_max_left _ _)] at selected
    exact built_selectWithin selected
  have built' : Built depth s' := by
    rw [hg.sound.select_deep hr' (Nat.le_max_right _ _)] at selected'
    exact built_selectWithin selected'
  have same : s = s' := built.eq_of_written built' quoted (by rw [← sql, text, sql'])
    (by rw [← values, params, values'])
  exact ⟨s, selected, same ▸ selected'⟩

/-- A query whose names contain the marks around names, and words of the language. -/
def marked : List Action :=
  [.call (.root {} ⟨"order", "Order", "or\"ders\" WHERE 1 = 0"⟩ (some "o\".\"p") {}),
    .call (.change ⟨0, 0⟩ (.select (.column "id\" AS \"x") none)),
    .call (.change ⟨0, 0⟩ (.compare (.column "") .eq (.int 1)))]

/-- The same query, begun behind another one. -/
def markedBehind : List Action :=
  [.call (.root {} ⟨"item", "Item", "items"⟩ none {}),
    .call (.root {} ⟨"order", "Order", "or\"ders\" WHERE 1 = 0"⟩ (some "o\".\"p") {}),
    .call (.change ⟨1, 0⟩ (.compare (.column "") .eq (.int 1))),
    .call (.change ⟨1, 0⟩ (.select (.column "id\" AS \"x") none))]

theorem query_of_statement_marked : ∃ s, (empty.run marked).select ⟨0, 0⟩ = .ok s ∧
    (empty.run markedBehind).select ⟨1, 0⟩ = .ok s := by
  have reachable : (empty.run marked).Reachable := ⟨marked, by decide, rfl⟩
  have reachable' : (empty.run markedBehind).Reachable := ⟨markedBehind, by decide, rfl⟩
  exact @query_of_statement _ _ ⟨0, 0⟩ ⟨1, 0⟩ reachable reachable' (by decide) (by decide) .postgres
    (Or.inl rfl) _ _ rfl rfl rfl rfl

end QueryForest.Forest
