import Mathlib.Data.List.Basic
import QueryForest.Proofs.Sql.Separate

set_option autoImplicit false

/-!
# The forms of queries are legible

The symbols of a query of one of the forms tell the query (`Built.legible`). This is put together
form by form, each with the words that may follow it. Operands begin in different ways, by which
they are told apart; behind a column there is an ending, or nothing where no word of an ending
follows; and each clause of a query begins with a word that no clause before it can go on with.
-/

namespace QueryForest.Sql

/-! ## Columns and values -/

/-- A name behind another one. -/
theorem legible_names : Legible (fun _ : String × String => True ∧ True)
    (fun p => [.name p.1] ++ (chars "." ++ [.name p.2])) Any :=
  Legible.name.pair (Legible.name.keyword ".") fun _ _ _ _ => trivial

theorem legible_column : Legible Expr.IsColumn Expr.symbols Any :=
  legible_names.of (fun p => .column p.1 p.2) fun e he => by
    obtain ⟨a, c, rfl⟩ := he
    exact ⟨(a, c), ⟨trivial, trivial⟩, rfl, rfl⟩

theorem legible_value : Legible Expr.IsValue Expr.symbols Any :=
  Legible.value.of Expr.value fun e he => by
    obtain ⟨v, rfl⟩ := he
    exact ⟨v, trivial, rfl, rfl⟩

/-- A word begins with a character. -/
theorem word_ne {k : String} (hk : k ≠ "") {s : Symbol} (hs : ∀ c, .char c ≠ s) (x y : List Symbol) :
    chars k ++ x ≠ s :: y := by
  unfold chars
  cases h : k.toList with
  | nil => exact absurd (String.toList_eq_nil_iff.mp h) hk
  | cons c cs => exact fun same => hs c (List.cons.inj same).1

theorem word_ne_name {k : String} (hk : k ≠ "") (x : List Symbol) (a : String) (y : List Symbol) :
    chars k ++ x ≠ .name a :: y :=
  word_ne hk (fun _ => Symbol.noConfusion) x y

/-! ## Openings -/

/-- What an operand beginning with a symbol is. -/
def Symbol.opening : Symbol → Option Opening
  | name _ => some .name
  | value _ => some .value
  | char c =>
    if c = '(' then some .parenthesis
    else if c = '1' then some .literal
    else if c ∈ ['E', 'N'] then some .query
    else if c ∈ ['C', 'S', 'A', 'M', 'R'] then some .function
    else none

/-- What some symbols begin with, if they are those of an operand. -/
def opening (x : List Symbol) : Option Opening := x.head?.bind Symbol.opening

variable {x y : List Symbol} {o : Opening}

theorem opening_append (h : opening x = some o) (y : List Symbol) : opening (x ++ y) = some o := by
  cases x with
  | nil => exact absurd h (by simp [opening])
  | cons s x => exact h

/-- Symbols that begin in different ways are different. -/
theorem opening_ne {o' : Opening} (h : opening x = some o) (h' : opening y = some o')
    (different : o ≠ o') (r r' : List Symbol) : x ++ r ≠ y ++ r' := by
  intro same
  have both := congrArg opening same
  rw [opening_append h, opening_append h'] at both
  exact different (Option.some.inj both)

theorem opening_column (a c : String) : opening (Expr.column a c).symbols = some .name := rfl

theorem Argument.opening_call (x : Argument) (f : AggregateFunction) :
    opening (x.call f).symbols = some .function := by
  rw [symbols_call]
  exact opening_append (by cases f <;> decide) _

theorem Expr.Scaled.opening {e : Expr} (h : e.Scaled) : opening e.symbols = some .function := by
  cases h with
  | call f x => exact x.opening_call f
  | rounded f x places =>
      rw [x.symbols_rounded]
      exact opening_append (by decide) _

/-! ## Aggregates -/

theorem legible_argument : Legible (fun _ : Argument => True) Argument.symbols Any where
  told := by
    -- The word for distinct values is no name.
    have differ {a c a' c' : String} {r r' : List Symbol} :
        (Argument.column true a c).symbols ++ r ≠ (Argument.column false a' c').symbols ++ r' := by
      show chars "DISTINCT " ++ _ ++ r ≠ .name a' :: _
      rw [List.append_assoc]
      exact word_ne_name (by decide) _ a' _
    have rows {distinct : Bool} {a c : String} {r r' : List Symbol} :
        Argument.rows.symbols ++ r ≠ (Argument.column distinct a c).symbols ++ r' := by
      cases distinct with
      | false => exact word_ne_name (by decide) _ a _
      | true =>
          show chars "*" ++ r ≠ chars "DISTINCT " ++ _ ++ r'
          rw [List.append_assoc]
          exact chars_ne (by decide) _ _
    have column {distinct : Bool} {a c a' c' : String} {r r' : List Symbol}
        (same : (Argument.column distinct a c).symbols ++ r
          = (Argument.column distinct a' c').symbols ++ r') :
        Argument.column distinct a c = .column distinct a' c' ∧ r = r' := by
      simp only [Argument.symbols, List.append_assoc] at same
      obtain ⟨columns, rest⟩ := legible_column.told ⟨a, c, rfl⟩ ⟨a', c', rfl⟩ trivial trivial
        (List.append_cancel_left same)
      injection columns with aliases names
      exact ⟨by rw [Option.some.inj aliases, names], rest⟩
    intro x x' r r' _ _ _ _ same
    cases x with
    | rows =>
        cases x' with
        | rows => exact ⟨rfl, List.append_cancel_left same⟩
        | column => exact absurd same rows
    | column distinct a c =>
        cases x' with
        | rows => exact absurd same.symm rows
        | column distinct' a' c' =>
            cases distinct <;> cases distinct'
            · exact column same
            · exact absurd same.symm differ
            · exact absurd same differ
            · exact column same

/-- The call of a function. -/
theorem legible_call : Legible (fun _ : AggregateFunction × Argument => True ∧ True)
    (fun p => (p.2.call p.1).symbols) Any := by
  have words : Legible (fun _ : AggregateFunction => True) (fun f => chars (f.sql ++ "(")) Any :=
    Legible.words fun f g => by cases f <;> cases g <;> decide
  have called := words.pair (legible_argument.before ")" fun _ => trivial) fun _ _ _ _ => trivial
  exact called.of id fun p _ => ⟨p, ⟨trivial, trivial⟩, rfl, p.2.symbols_call p.1⟩

/-- What stands before the first occurrence of an element is told. -/
theorem before_first {α : Type} {c : α} {s s' r r' : List α} (hs : c ∉ s) (hs' : c ∉ s')
    (same : s ++ c :: r = s' ++ c :: r') : s = s' ∧ r = r' := by
  induction s generalizing s' with
  | nil =>
      cases s' with
      | nil => exact ⟨rfl, List.tail_eq_of_cons_eq same⟩
      | cons x s' => exact absurd (List.cons.inj same).1 fun first => hs' (by simp [first])
  | cons x s ih =>
      cases s' with
      | nil => exact absurd (List.cons.inj same).1 fun first => hs (by simp [first])
      | cons x' s' =>
          obtain ⟨first, same⟩ := List.cons.inj same
          obtain ⟨behind, rest⟩ := ih (fun mem => hs (List.mem_cons_of_mem _ mem))
            (fun mem => hs' (List.mem_cons_of_mem _ mem)) same
          exact ⟨by rw [first, behind], rest⟩

theorem toString_injective {n m : Nat} (h : toString n = toString m) : n = m := by
  have digits : Nat.toDigits 10 n = Nat.toDigits 10 m := String.ofList_injective h
  have back (n : Nat) : Nat.ofDigitChars 10 (Nat.toDigits 10 n) 0 = n :=
    Nat.ofDigitChars_toDigits (by decide) (by decide)
  rw [← back n, digits, back m]

/-- A number ends where the parenthesis around it is closed. -/
theorem legible_places :
    Legible (fun _ : Nat => True) (fun n => chars (toString n) ++ chars ")") Any where
  told := by
    intro n m r r' _ _ _ _ same
    have digits (n : Nat) : .char ')' ∉ chars (toString n) := by
      intro mem
      obtain ⟨c, digit, close⟩ := List.mem_map.mp mem
      obtain rfl := Symbol.char.inj close
      exact absurd (isDigit_of_mem_toString digit) (by decide)
    rw [List.append_assoc, List.append_assoc] at same
    obtain ⟨same, rest⟩ := before_first (digits n) (digits m) same
    have texts : (toString n).toList = (toString m).toList :=
      List.map_injective_iff.mpr (fun _ _ => Symbol.char.inj) same
    exact ⟨toString_injective (String.toList_inj.mp texts), rest⟩

theorem legible_scaled : Legible Expr.Scaled Expr.symbols Any := by
  have plain : Legible (fun e => ∃ f x, e = Argument.call f x) Expr.symbols Any :=
    legible_call.of (fun p => p.2.call p.1) fun e he => by
      obtain ⟨f, x, rfl⟩ := he
      exact ⟨(f, x), ⟨trivial, trivial⟩, rfl, rfl⟩
  have rounded : Legible (fun e => ∃ (f : AggregateFunction) (x : Argument) (places : Nat),
      e = .call "ROUND" [x.call f, .literal (toString places)] false false) Expr.symbols Any := by
    have parts := (legible_call.pair (legible_places.keyword ", ") fun _ _ _ _ => trivial).keyword
      "ROUND("
    refine parts.of (fun p => .call "ROUND" [p.1.2.call p.1.1, .literal (toString p.2)] false false)
      fun e he => ?_
    obtain ⟨f, x, places, rfl⟩ := he
    exact ⟨((f, x), places), ⟨⟨trivial, trivial⟩, trivial⟩, rfl, x.symbols_rounded f places⟩
  refine (plain.either rounded ?_).mono (fun e he => ?_) fun _ hr => hr
  · rintro _ _ r r' ⟨f, x, rfl⟩ ⟨f', x', places, rfl⟩
    rw [x.symbols_call, x'.symbols_rounded, List.append_assoc, List.append_assoc]
    have different : apart (f.sql ++ "(") "ROUND(" = true := by cases f <;> decide
    exact chars_ne different _ _
  · cases he with
    | call f x => exact Or.inl ⟨f, x, rfl⟩
    | rounded f x places => exact Or.inr ⟨f, x, places, rfl⟩

/-! ## Lists of results -/

/-- A column of a table, or all of them. -/
theorem legible_qualified : Legible (fun _ : String × Option String => True ∧ True)
    (fun p => [.name p.1] ++ (chars "." ++ p.2.elim (chars "*") fun c => [.name c])) Any := by
  have target : Legible (fun _ : Option String => True)
      (fun o => o.elim (chars "*") fun c => [.name c]) Any := by
    refine ⟨?_⟩
    intro o o' r r' _ _ _ _ same
    cases o with
    | none =>
        cases o' with
        | none => exact ⟨rfl, List.append_cancel_left same⟩
        | some c' => exact absurd same (word_ne_name (by decide) _ c' _)
    | some c =>
        cases o' with
        | none => exact absurd same.symm (word_ne_name (by decide) _ c _)
        | some c' =>
            obtain ⟨names, rest⟩ := Legible.name.told trivial trivial trivial trivial same
            exact ⟨congrArg some names, rest⟩
  exact Legible.name.pair (target.keyword ".") fun _ _ _ _ => trivial

theorem legible_result : Legible Expr.Result Expr.symbols Any := by
  let make : String × Option String → Expr
    | (a, some c) => .column a c
    | (a, none) => .wildcard (some a)
  have qualified : Legible (fun e => ∃ p, e = make p) Expr.symbols Any :=
    legible_qualified.of make fun e he => by
      obtain ⟨⟨a, target⟩, rfl⟩ := he
      cases target with
      | none => exact ⟨(a, none), ⟨trivial, trivial⟩, rfl, rfl⟩
      | some c => exact ⟨(a, some c), ⟨trivial, trivial⟩, rfl, rfl⟩
  refine (qualified.either legible_scaled ?_).mono (fun e he => ?_) fun _ hr => hr
  · rintro _ e r r' ⟨⟨a, target⟩, rfl⟩ he
    cases target <;> exact opening_ne (o := .name) rfl he.opening (by decide) r r'
  · cases he with
    | column a c => exact Or.inl ⟨(a, some c), rfl⟩
    | wildcard a => exact Or.inl ⟨(a, none), rfl⟩
    | scaled h => exact Or.inr h

/-- An item of a list of results, where no alias follows. -/
theorem legible_shown {ks : List String} (clear : Clear " AS " ks) :
    Legible Expr.Shown Expr.symbols (Ahead ks) := by
  have aliased : Legible (fun o : Option String => ∀ a ∈ o, True)
      (optional fun a => chars " AS " ++ [.name a]) (Ahead ks) :=
    Legible.name.any.clause clear
  have item := legible_result.pair aliased fun _ _ _ _ => trivial
  refine item.of (fun p => p.1.underAlias p.2) fun e he => ?_
  obtain ⟨shown, aliasName, result, rfl⟩ := he
  exact ⟨(shown, aliasName), ⟨result, fun _ _ => trivial⟩, rfl, shown.symbols_underAlias aliasName⟩

/-! ## Sorting -/

/-- The key of a sort. -/
theorem legible_key : Legible (fun p : Bool × Expr => p.2.IsColumn)
    (fun p => if p.1 then chars "LOWER(" ++ (p.2.symbols ++ chars ")") else p.2.symbols) Any where
  told := by
    have folded := (legible_column.before ")" fun _ => trivial).keyword "LOWER("
    -- The word for ignoring case is no name.
    have differ {x y z : List Symbol} {a : String} : chars "LOWER(" ++ x ++ y ≠ .name a :: z := by
      rw [List.append_assoc]
      exact word_ne_name (by decide) _ a _
    rintro ⟨ignoreCase, e⟩ ⟨ignoreCase', e'⟩ r r' ⟨a, c, rfl⟩ ⟨a', c', rfl⟩ hr hr' same
    cases ignoreCase with
    | false =>
        cases ignoreCase' with
        | false =>
            obtain ⟨columns, rest⟩ := legible_column.told ⟨a, c, rfl⟩ ⟨a', c', rfl⟩ hr hr' same
            exact ⟨congrArg (Prod.mk false) columns, rest⟩
        | true => exact absurd same.symm differ
    | true =>
        cases ignoreCase' with
        | false => exact absurd same differ
        | true =>
            obtain ⟨columns, rest⟩ := folded.told ⟨a, c, rfl⟩ ⟨a', c', rfl⟩ hr hr' same
            exact ⟨congrArg (Prod.mk true) columns, rest⟩

/-- The words for the rows without a value. -/
def nullsWord (first : Bool) : String := if first then " NULLS FIRST" else " NULLS LAST"

theorem legible_nulls {ks : List String}
    (clear : ∀ k ∈ [" NULLS FIRST", " NULLS LAST"], Clear k ks) :
    Legible (fun _ : NullsPlace => True) NullsPlace.symbols (Ahead ks) := by
  have words : Legible (fun _ : Bool => True) (fun first => chars (nullsWord first)) Any :=
    Legible.words (by decide)
  have begins (first : Bool) (_ : True) :
      Begins [" NULLS FIRST", " NULLS LAST"] (chars (nullsWord first)) := by
    have mem : nullsWord first ∈ [" NULLS FIRST", " NULLS LAST"] := by cases first <;> decide
    exact List.append_nil (chars (nullsWord first)) ▸ Begins.word mem []
  refine (words.any.option begins fun r hr => hr.off clear).of
    (fun o => o.elim .unspecified fun first => if first then .first else .last) fun nulls _ => ?_
  cases nulls with
  | unspecified => exact ⟨none, fun _ _ => trivial, rfl, rfl⟩
  | first => exact ⟨some true, fun _ _ => trivial, rfl, rfl⟩
  | last => exact ⟨some false, fun _ _ => trivial, rfl, rfl⟩

theorem legible_order {ks : List String}
    (clear : ∀ k ∈ [" NULLS FIRST", " NULLS LAST"], Clear k ks) :
    Legible OrderItem.Formed OrderItem.symbols (Ahead ks) := by
  have directions : Legible (fun _ : Direction => True) (fun dir => chars (" " ++ dir.sql)) Any :=
    Legible.words fun dir dir' => by cases dir <;> cases dir' <;> decide
  have behind := directions.pair (legible_nulls clear) fun _ _ _ _ => trivial
  refine (legible_key.pair behind fun _ _ _ _ => trivial).of
    (fun p => ⟨p.1.2, some p.2.1, p.2.2, p.1.1⟩) fun o ho => ?_
  obtain ⟨e, direction, nulls, ignoreCase⟩ := o
  obtain ⟨column, dir, rfl⟩ := ho
  exact ⟨((ignoreCase, e), dir, nulls), ⟨column, trivial, trivial⟩, rfl,
    OrderItem.symbols_eq e dir nulls ignoreCase⟩

/-! ## Predicates -/

/-- The words that an ending begins with. -/
def endings : List String := [" IS NULL", " IS NOT NULL", " IN (", " NOT IN ("]

theorem legible_inWord :
    Legible (fun _ : Bool => True) (fun negated => chars (inWord negated)) Any :=
  Legible.words (by decide)

theorem nullWord_ne_inWord (negated negated' : Bool) (x y : List Symbol) :
    chars (nullWord negated) ++ x ≠ chars (inWord negated') ++ y := by
  have different : apart (nullWord negated) (inWord negated') = true := by
    cases negated <;> cases negated' <;> decide
  exact chars_ne different x y

theorem closed_ahead (r : List Symbol) : Ahead [")"] (chars ")" ++ r) :=
  Ahead.word List.mem_cons_self r

theorem legible_nullEnding :
    Legible (fun t => ∃ negated, t = Ending.isNull negated) Ending.symbols Any := by
  have words : Legible (fun _ : Bool => True) (fun negated => chars (nullWord negated)) Any :=
    Legible.words (by decide)
  refine words.of Ending.isNull fun t ht => ?_
  obtain ⟨negated, rfl⟩ := ht
  exact ⟨negated, trivial, rfl, rfl⟩

theorem legible_listEnding :
    Legible (fun t => ∃ values negated, values ≠ [] ∧ t = Ending.inList values negated)
      Ending.symbols Any := by
  have list : Legible (fun l : List Value => l ≠ [] ∧ ∀ v ∈ l, True)
      (fun l => commas (l.map fun v => [.value v])) (Ahead [")"]) :=
    Legible.value.any.list (by decide)
  have parts := legible_inWord.pair (list.before ")" closed_ahead) fun _ _ _ _ => trivial
  refine parts.of (fun p => .inList p.2 p.1) fun t ht => ?_
  obtain ⟨values, negated, some, rfl⟩ := ht
  exact ⟨(negated, values), ⟨trivial, some, fun _ _ => trivial⟩, rfl, rfl⟩

section Nested

variable {Q : Select → Prop} (inside : Legible Q Select.symbols (Ahead [")"]))

include inside

theorem legible_queryEnding :
    Legible (fun t => ∃ s negated, Q s ∧ t = Ending.inSelect s negated) Ending.symbols Any := by
  have parts := legible_inWord.pair (inside.before ")" closed_ahead) fun _ _ _ _ => trivial
  refine parts.of (fun p => .inSelect p.2 p.1) fun t ht => ?_
  obtain ⟨s, negated, hs, rfl⟩ := ht
  exact ⟨(negated, s), ⟨trivial, hs⟩, rfl, rfl⟩

theorem legible_ending : Legible (Ending.Formed Q) Ending.symbols Any := by
  -- Within the parenthesis a list begins with a value, and a query with a word.
  have among := legible_listEnding.either (legible_queryEnding inside) fun t t' r r' ht ht' same => by
    obtain ⟨values, negated, some, rfl⟩ := ht
    obtain ⟨s, negated', -, rfl⟩ := ht'
    obtain ⟨v, values, rfl⟩ := List.exists_cons_of_ne_nil some
    simp only [Ending.symbols, List.append_assoc] at same
    obtain ⟨-, same⟩ := legible_inWord.told trivial trivial trivial trivial same
    rw [Select.symbols_eq, List.append_assoc] at same
    exact absurd same.symm (word_ne (by decide) (s := .value v) (fun _ => Symbol.noConfusion) _ _)
  refine (legible_nullEnding.either among fun t t' r r' ht ht' => ?_).mono (fun t ht => ?_)
    fun _ hr => hr
  · obtain ⟨negated, rfl⟩ := ht
    rcases ht' with ⟨values, negated', -, rfl⟩ | ⟨s, negated', -, rfl⟩
    · simp only [Ending.symbols, List.append_assoc]
      exact nullWord_ne_inWord negated negated' _ _
    · simp only [Ending.symbols, List.append_assoc]
      exact nullWord_ne_inWord negated negated' _ _
  · cases ht with
    | isNull negated => exact Or.inl ⟨negated, rfl⟩
    | @inList values some negated => exact Or.inr (Or.inl ⟨values, negated, some, rfl⟩)
    | @inSelect s hs negated => exact Or.inr (Or.inr ⟨s, negated, hs, rfl⟩)

omit inside in
theorem Ending.begins (t : Ending) : Begins endings t.symbols := by
  have nulls (negated : Bool) : nullWord negated ∈ endings := by cases negated <;> decide
  have ins (negated : Bool) : inWord negated ∈ endings := by cases negated <;> decide
  cases t with
  | isNull negated =>
      have word := Begins.word (nulls negated) []
      rwa [List.append_nil] at word
  | inList values negated => exact Begins.word (ins negated) _
  | inSelect s negated => exact Begins.word (ins negated) _

theorem legible_atom (o : Opening) : Legible (Expr.Atom Q o) Expr.symbols (Off endings) := by
  cases o with
  | name =>
      -- Where no word of an ending follows, there is none.
      have ended := (legible_ending inside).any.option (fun t _ => t.begins) fun r hr => hr
      refine (legible_column.pair ended fun _ _ _ _ => trivial).of (fun p => p.1.ended p.2)
        fun e he => ?_
      cases he with
      | @tested a c o ends =>
          exact ⟨(.column a c, o), ⟨⟨a, c, rfl⟩, ends⟩, rfl, Expr.symbols_ended _ o⟩
  | value =>
      refine legible_value.any.mono (fun e he => ?_) fun _ hr => hr
      cases he with
      | value v => exact ⟨v, rfl⟩
  | function =>
      refine legible_scaled.any.mono (fun e he => ?_) fun _ hr => hr
      cases he with
      | scaled h => exact h
  | literal =>
      have words : Legible (fun _ : Bool => True)
          (fun negated => chars (if negated then "1 = 1" else "1 = 0")) Any :=
        Legible.words (by decide)
      refine words.any.of (fun negated => .literal (if negated then "1 = 1" else "1 = 0"))
        fun e he => ?_
      cases he with
      | literal negated => exact ⟨negated, trivial, rfl, Expr.symbols_literal _⟩
  | query =>
      have words : Legible (fun _ : Bool => True)
          (fun negated => chars (if negated then "NOT EXISTS (" else "EXISTS (")) Any :=
        Legible.words (by decide)
      have nested := words.pair (inside.before ")" closed_ahead) fun _ _ _ _ => trivial
      refine nested.any.of (fun p => .existsSelect p.2 p.1) fun e he => ?_
      cases he with
      | @existsSelect s hs negated =>
          exact ⟨(negated, s), ⟨trivial, hs⟩, rfl, Expr.symbols_existsSelect s negated⟩
  | parenthesis => exact ⟨fun ha => nomatch ha⟩

omit inside in
theorem Expr.Atom.opening {o : Opening} {e : Expr} (h : e.Atom Q o) :
    opening e.symbols = some o := by
  cases h with
  | tested a c ends =>
      rw [symbols_ended]
      exact opening_append (opening_column a c) _
  | value v => rfl
  | scaled h => exact h.opening
  | literal negated => cases negated <;> decide
  | existsSelect hs negated =>
      rw [symbols_existsSelect]
      exact opening_append (by cases negated <;> decide) _

omit inside in
/-- A binary expression begins with a parenthesis, and no other operand does. -/
theorem Expr.Atom.ne_binary {o : Opening} {e : Expr} (h : e.Atom Q o) (left right : Expr)
    (op : Operator) (r r' : List Symbol) :
    e.symbols ++ r ≠ (Expr.binary left op right).symbols ++ r' := by
  have different : o ≠ .parenthesis := by
    rintro rfl
    nomatch h
  refine opening_ne h.opening ?_ different r r'
  rw [symbols_binary]
  exact opening_append rfl _

/-- **An operand or a predicate is told, unless an ending follows.** -/
theorem legible_formed : Legible (Expr.Formed Q) Expr.symbols (Off endings) where
  told := by
    have atoms : Legible (fun e => ∃ o, Expr.Atom Q o e) Expr.symbols (Off endings) :=
      Legible.choice (legible_atom inside) fun ha hb same => by
        by_contra different
        exact opening_ne ha.opening hb.opening different _ _ same
    have operators :
        Legible (fun _ : Operator => True) (fun op => chars (" " ++ op.sql ++ " ")) Any :=
      Legible.words fun op op' => by cases op <;> cases op' <;> decide
    have follow (op : Operator) (r : List Symbol) :
        Off endings (chars (" " ++ op.sql ++ " ") ++ r) := by
      refine (Ahead.word (List.mem_singleton_self _) r).off ?_
      cases op <;> decide
    have close (r : List Symbol) : Off endings (chars ")" ++ r) :=
      (Ahead.word (List.mem_singleton_self _) r).off (by decide)
    intro e e' r r' he he' hr hr' same
    -- On the first expression. The second one is of the same kind, because of its parenthesis. What
    -- follows a part of a binary expression is never an ending.
    induction he generalizing e' r r' with
    | atom ha =>
        cases he' with
        | atom hb => exact atoms.told ⟨_, ha⟩ ⟨_, hb⟩ hr hr' same
        | binary op' hl' hr' => exact absurd same (ha.ne_binary _ _ op' r r')
    | @binary left right op hl hr ihl ihr =>
        cases he' with
        | atom hb => exact absurd same.symm (hb.ne_binary left right op r' r)
        | @binary left' right' op' hl' hr' =>
            rw [Expr.symbols_binary, Expr.symbols_binary] at same
            simp only [List.append_assoc] at same
            obtain ⟨lefts, same⟩ := ihl hl' (follow op _) (follow op' _)
              (List.append_cancel_left same)
            obtain ⟨ops, same⟩ := operators.told trivial trivial trivial trivial same
            obtain ⟨rights, same⟩ := ihr hr' (close r) (close r') same
            exact ⟨by rw [lefts, ops, rights], List.append_cancel_left same⟩

/-! ## Queries -/

theorem legible_source : Legible (TableSource.Formed Q) TableSource.symbols Any where
  told := by
    have queries := (inside.before ")" closed_ahead).keyword "("
    intro source source' r r' hs hs' hr hr' same
    cases hs with
    | table n =>
        cases hs' with
        | table n' =>
            obtain ⟨rfl, rest⟩ := Legible.name.told trivial trivial trivial trivial same
            exact ⟨rfl, rest⟩
        | @select s' h' =>
            rw [TableSource.symbols_select, List.append_assoc] at same
            exact absurd same.symm (word_ne_name (by decide) _ n _)
    | @select s h =>
        rw [TableSource.symbols_select] at same
        cases hs' with
        | table n' =>
            rw [List.append_assoc] at same
            exact absurd same (word_ne_name (by decide) _ n' _)
        | @select s' h' =>
            rw [TableSource.symbols_select] at same
            obtain ⟨rfl, rest⟩ := queries.told h h' hr hr' same
            exact ⟨rfl, rest⟩

theorem legible_fromItem : Legible (FromItem.Formed Q) FromItem.symbols Any := by
  have parts := (legible_source inside).pair (Legible.name.keyword " AS ") fun _ _ _ _ => trivial
  refine parts.of (fun p => ⟨p.1, some p.2⟩) fun item hitem => ?_
  obtain ⟨source, aliasName⟩ := item
  obtain ⟨hs, a, rfl⟩ := hitem
  exact ⟨(source, a), ⟨hs, trivial⟩, rfl, FromItem.symbols_eq source a⟩

/-- The words that a join begins with. -/
def joinWords : List String := JoinKind.all.map JoinKind.spaced

/-- A join with the space before it. -/
theorem legible_join :
    Legible (JoinItem.Formed Q) (fun j => chars " " ++ j.symbols) (Off endings) := by
  have kinds : Legible (fun _ : JoinKind => True) (fun kind => chars kind.spaced) Any :=
    Legible.words fun kind kind' => by cases kind <;> cases kind' <;> decide
  have behind := Legible.name.pair ((legible_formed inside).keyword " ON ") fun _ _ _ _ => trivial
  have sourced := (legible_source inside).pair (behind.keyword " AS ") fun _ _ _ _ => trivial
  refine (kinds.pair sourced fun _ _ _ _ => trivial).of
    (fun p => ⟨p.1, p.2.1, some p.2.2.1, p.2.2.2⟩) fun j hj => ?_
  obtain ⟨kind, source, aliasName, on⟩ := j
  obtain ⟨hs, ⟨a, rfl⟩, hon⟩ := hj
  exact ⟨(kind, source, a, on), ⟨trivial, hs, trivial, hon⟩, rfl,
    JoinItem.symbols_eq kind source a on⟩

omit inside in
theorem JoinItem.Formed.begins {j : JoinItem} (h : j.Formed Q) :
    Begins joinWords (chars " " ++ j.symbols) := by
  obtain ⟨kind, source, aliasName, on⟩ := j
  obtain ⟨-, ⟨a, rfl⟩, -⟩ := h
  rw [JoinItem.symbols_eq]
  exact Begins.word (by cases kind <;> decide) _

/-- **A query is told, where it is closed or nothing follows**, if the queries nested in it are. -/
theorem legible_select : Legible (Select.Formed Q) Select.symbols (Ahead [")"]) := by
  have predicate {ks : List String} (clear : ∀ k ∈ endings, Clear k ks) :
      Legible (Expr.Formed Q) Expr.symbols (Ahead ks) :=
    (legible_formed inside).mono (fun _ h => h) fun _ hr => hr.off clear
  have join {ks : List String} (clear : ∀ k ∈ endings, Clear k ks) :
      Legible (JoinItem.Formed Q) (fun j => chars " " ++ j.symbols) (Ahead ks) :=
    (legible_join inside).mono (fun _ h => h) fun _ hr => hr.off clear
  -- From the last clause to the first: what follows a clause are the words of those behind it.
  have offset := (Clauses.nil [")"]).clause " OFFSET " legible_value.any (by decide)
  have limit := offset.clause " LIMIT " legible_value.any (by decide)
  have order := limit.listClause " ORDER BY " (legible_order (by decide)) (by decide) (by decide)
  have having := order.clause " HAVING " (predicate (by decide)) (by decide)
  have groups := having.listClause " GROUP BY " legible_column.any (by decide) (by decide)
  have condition := groups.clause " WHERE " (predicate (by decide)) (by decide)
  have joins := condition.many joinWords (join (by decide)) (fun _ hj => hj.begins) (by decide)
  have source := joins.clause " FROM " (legible_fromItem inside).any (by decide)
  have columns := ((legible_shown (by decide)).list (by decide)).pair source.legible source.ahead
  refine (columns.keyword "SELECT ").of
    (fun (columns, source, joins, condition, groups, having, order, limit, offset, _) =>
      { columns, source, joins, condition, groups, having, order, limit, offset }) fun s hs => ?_
  obtain ⟨cs, item, js, predicates, gs, hv, os, l, o⟩ := s
  refine ⟨(cs, item, js, predicates, gs, hv, os, l, o, ()), ?_, rfl, ?_⟩
  · exact ⟨⟨hs.nonempty, hs.columns⟩, hs.source, hs.joins, hs.condition, hs.groups, hs.having,
      hs.order, hs.limit, hs.offset, trivial⟩
  · rw [Select.symbols_eq]
    simp only [List.append_nil]

end Nested

/-- **The symbols of a query of one of the forms tell the query.** -/
theorem Built.legible (depth : Nat) : Legible (Built depth) Select.symbols (Ahead [")"]) := by
  induction depth with
  | zero => exact ⟨fun h => h.elim⟩
  | succ depth ih => exact legible_select ih

/-- **Two queries of the forms that are written alike are the same**, in a dialect that quotes names:
the texts are the same and so are the parameters. -/
theorem Built.eq_of_written {depth : Nat} {s s' : Select} (h : Built depth s) (h' : Built depth s')
    {d : Dialect} {mark : Char} (quotes : d.quoteMark? = some mark)
    (text : (Output.writeAll d {} (s.pieces d)).sql = (Output.writeAll d {} (s'.pieces d)).sql)
    (values : (Output.writeAll d {} (s.pieces d)).params
      = (Output.writeAll d {} (s'.pieces d)).params) : s = s' := by
  have spelling (s : Select) : (Output.writeAll d {} (s.pieces d)).sql.toList
      = spelled d 0 s.symbols := by
    rw [writeAll_eq, s.pieces_eq, Select.symbols, ← spelled_symbolsOf quotes]
    exact congrArg String.toList String.empty_append
  have bound (s : Select) : (Output.writeAll d {} (s.pieces d)).params
      = s.symbols.filterMap Symbol.value? := by
    rw [writeAll_eq, s.pieces_eq, valuesOf_tokens, Select.symbols, values_symbolsOf]
    exact List.nil_append _
  have symbols : s.symbols = s'.symbols :=
    h.separate.eq_of_spelled quotes h'.separate (by rw [← spelling, text, spelling])
      (by rw [← bound, values, bound])
  have same : s.symbols ++ [] = s'.symbols ++ [] := by rw [symbols]
  exact ((Built.legible depth).told h h' (Or.inl rfl) (Or.inl rfl) same).1

end QueryForest.Sql
