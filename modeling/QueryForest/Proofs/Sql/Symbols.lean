import QueryForest.Proofs.Sql.Layout

set_option autoImplicit false

/-!
# The symbols of a statement

A statement is a sequence of symbols: characters, quoted names, and bound values. Where a dialect
quotes names, a text and its parameters come from one sequence of symbols at most, as long as the
symbols are `Separate`: no character outside of names is a mark of a name or of a parameter, and no
two names touch (`Separate.eq_of_spelled`). A name ends with a single mark, because the marks inside
it are doubled.
-/

namespace QueryForest

namespace Text

theorem doubled_cons (mark c : Char) (s : List Char) :
    doubled mark (c :: s) = c :: ((if c = mark then [mark] else []) ++ doubled mark s) := by
  by_cases h : c = mark <;> simp [doubled, h]

/-- A single mark is not the beginning of a text with its marks doubled. -/
theorem doubled_cons_ne {mark c : Char} {s r r' : List Char} (hr : r.head? ≠ some mark) :
    doubled mark (c :: s) ++ r' ≠ mark :: r := by
  intro same
  rw [doubled_cons, List.cons_append, List.cons.injEq] at same
  obtain ⟨rfl, rfl⟩ := same
  exact hr (by simp)

/-- **A quoted text ends at its first single mark**, whatever it contains. -/
theorem doubled_cancel {mark : Char} {s s' r r' : List Char} (hr : r.head? ≠ some mark)
    (hr' : r'.head? ≠ some mark)
    (same : doubled mark s ++ mark :: r = doubled mark s' ++ mark :: r') : s = s' ∧ r = r' := by
  induction s generalizing s' with
  | nil =>
      cases s' with
      | nil => exact ⟨rfl, List.tail_eq_of_cons_eq same⟩
      | cons c' s' => exact absurd same.symm (doubled_cons_ne hr)
  | cons c s ih =>
      cases s' with
      | nil => exact absurd same (doubled_cons_ne hr')
      | cons c' s' =>
          rw [doubled_cons, doubled_cons, List.cons_append, List.cons_append,
            List.cons.injEq] at same
          obtain ⟨rfl, same⟩ := same
          rw [List.append_assoc, List.append_assoc] at same
          obtain ⟨rfl, rest⟩ := ih (List.append_cancel_left same)
          exact ⟨rfl, rest⟩

end Text

namespace Sql

/-- A symbol of a statement: a character outside of names, a quoted name, or a bound value. -/
inductive Symbol where
  | char (c : Char)
  | name (n : String)
  | value (v : Value)

/-- The symbols of a text without names. -/
def chars (s : String) : List Symbol := s.toList.map .char

/-- The symbols of a token, in a dialect that quotes names. -/
def Token.symbols : Token → List Symbol
  | text s => chars s
  | name n => [.name n]
  | value v => [.value v]
  | tableAlias => chars " AS "

def symbolsOf (tokens : List Token) : List Symbol := tokens.flatMap Token.symbols

@[simp] theorem symbolsOf_nil : symbolsOf [] = [] := rfl

@[simp] theorem symbolsOf_cons (t : Token) (tokens : List Token) :
    symbolsOf (t :: tokens) = t.symbols ++ symbolsOf tokens := rfl

@[simp] theorem symbolsOf_append (tokens tokens' : List Token) :
    symbolsOf (tokens ++ tokens') = symbolsOf tokens ++ symbolsOf tokens' :=
  List.flatMap_append

def Symbol.value? : Symbol → Option Value
  | value v => some v
  | _ => none

/-- The values among the symbols are those among the tokens. -/
theorem values_symbolsOf (tokens : List Token) :
    (symbolsOf tokens).filterMap Symbol.value? = valuesIn tokens := by
  have none (s : List Char) : (s.map Symbol.char).filterMap Symbol.value? = [] :=
    List.filterMap_eq_nil_iff.mpr fun x hx => by
      obtain ⟨c, -, rfl⟩ := List.mem_map.mp hx
      rfl
  induction tokens with
  | nil => rfl
  | cons t tokens ih =>
      rw [symbolsOf_cons, List.filterMap_append, ih]
      cases t with
      | text s => exact congrArg (· ++ _) (none s.toList)
      | tableAlias => exact congrArg (· ++ _) (none " AS ".toList)
      | name n => rfl
      | value v => rfl

/-! ## Spelling -/

/-- Symbols in the form of a dialect, with parameters numbered from `n` on. -/
def spelled (d : Dialect) : (n : Nat) → List Symbol → List Char
  | _, [] => []
  | n, .char c :: rest => c :: spelled d n rest
  | n, .name a :: rest => (d.quote a).toList ++ spelled d n rest
  | n, .value _ :: rest => (d.placeholder n).toList ++ spelled d (n + 1) rest

theorem spelled_chars (d : Dialect) (n : Nat) (s : String) (rest : List Symbol) :
    spelled d n (chars s ++ rest) = s.toList ++ spelled d n rest := by
  unfold chars
  induction s.toList with
  | nil => rfl
  | cons c cs ih => exact congrArg (c :: ·) ih

/-- What is written for some tokens is the spelling of their symbols. -/
theorem spelled_symbolsOf {d : Dialect} {mark : Char} (quotes : d.quoteMark? = some mark) (n : Nat)
    (tokens : List Token) :
    (written d (numbered n (gapped (tokens.map (Token.piece d))))).toList
      = spelled d n (symbolsOf tokens) := by
  have separator : d.aliasSeparator = " AS " := by
    cases d with
    | ansi => exact absurd quotes (by simp [Dialect.quoteMark?])
    | postgres | mysql => rfl
  induction tokens generalizing n with
  | nil => rfl
  | cons t tokens ih =>
      cases t <;>
        simp [Token.piece, Token.symbols, numbered, written_cons, Mark.written, spelled_chars,
          spelled, ih, separator]

/-! ## Separate symbols -/

/-- The marks of names and parameters. -/
def reserved : List Char := ['"', '\x60', '$', '?']

/-- Whether symbols can be told apart in a text: no character outside of names is a mark, and no two
names touch. -/
def Separate : List Symbol → Prop
  | [] => True
  | .char c :: rest => c ∉ reserved ∧ Separate rest
  | .name _ :: rest => (∀ n more, rest ≠ .name n :: more) ∧ Separate rest
  | .value _ :: rest => Separate rest

/-- Whether a text has no marks in it and can stand between names. -/
def plain (s : String) : Bool := !s.toList.isEmpty && s.toList.all (· ∉ reserved)

theorem Separate.append {symbols rest : List Symbol} {c : Char} :
    Separate (symbols ++ .char c :: rest) ↔ Separate symbols ∧ c ∉ reserved ∧ Separate rest := by
  induction symbols with
  | nil => simp [Separate]
  | cons x symbols ih =>
      cases x with
      | char c' => simp only [List.cons_append, Separate, ih, and_assoc]
      | value v => exact ih
      | name n =>
          have next : (∀ n' more, symbols ++ .char c :: rest ≠ .name n' :: more)
              ↔ ∀ n' more, symbols ≠ .name n' :: more := by
            cases symbols with
            | nil => simp
            | cons y symbols => simp
          simp only [List.cons_append, Separate, ih, next, and_assoc]

theorem separate_map {s : List Char} (hs : ∀ c ∈ s, c ∉ reserved) {rest : List Symbol} :
    Separate (s.map .char ++ rest) ↔ Separate rest := by
  induction s with
  | nil => rfl
  | cons c s ih =>
      have first : c ∉ reserved := hs c List.mem_cons_self
      exact (and_iff_right first).trans (ih fun c hc => hs c (List.mem_cons_of_mem _ hc))

theorem separate_chars {rest : List Symbol} {s : String} (hs : plain s = true) :
    Separate (chars s ++ rest) ↔ Separate rest :=
  separate_map (by simpa [plain] using (Bool.and_eq_true_iff.mp hs).2)

/-- What stands before and behind a text that has no marks in it is looked at by itself. -/
theorem separate_append_chars {symbols rest : List Symbol} {s : String} (hs : plain s = true) :
    Separate (symbols ++ (chars s ++ rest)) ↔ Separate symbols ∧ Separate rest := by
  obtain ⟨some, none⟩ := Bool.and_eq_true_iff.mp hs
  unfold chars
  cases h : s.toList with
  | nil => simp [h] at some
  | cons c cs =>
      have clean : ∀ c ∈ s.toList, c ∉ reserved := by simpa [plain] using none
      rw [h] at clean
      rw [List.map_cons, List.cons_append, Separate.append,
        separate_map fun c hc => clean c (List.mem_cons_of_mem _ hc)]
      exact and_congr_right fun _ => and_iff_right (clean c List.mem_cons_self)

/-! ## Reading symbols -/

section Quoting

variable {d : Dialect} {mark : Char} (quotes : d.quoteMark? = some mark)

include quotes

theorem mark_reserved : mark ∈ reserved := by
  cases d with
  | ansi => exact absurd quotes (by simp [Dialect.quoteMark?])
  | postgres | mysql => obtain rfl := Option.some.inj quotes; decide

theorem quote_eq (a : String) : (d.quote a).toList = mark :: Text.doubled mark a.toList ++ [mark] := by
  rw [Dialect.quote, quotes]
  exact String.toList_ofList

/-- Parameters have a mark of their own. -/
theorem placeholder_eq : ∃ p ∈ reserved, p ≠ mark ∧
    ∀ n, ∃ rest, (d.placeholder n).toList = p :: rest := by
  cases d with
  | ansi => exact absurd quotes (by simp [Dialect.quoteMark?])
  | postgres =>
      obtain rfl := Option.some.inj quotes
      exact ⟨'$', by decide, by decide, fun n => ⟨_, String.toList_append⟩⟩
  | mysql =>
      obtain rfl := Option.some.inj quotes
      exact ⟨'?', by decide, by decide, fun _ => ⟨[], by simp [Dialect.placeholder]⟩⟩

/-- What the form of a symbol begins with, where parameters begin with `p`. -/
def Symbol.lead (mark p : Char) : Symbol → Char
  | char c => c
  | name _ => mark
  | value _ => p

theorem spelled_cons {p : Char} (placeholder : ∀ n, ∃ rest, (d.placeholder n).toList = p :: rest)
    (n : Nat) (x : Symbol) (rest : List Symbol) :
    ∃ tail, spelled d n (x :: rest) = x.lead mark p :: tail := by
  cases x with
  | char c => exact ⟨_, rfl⟩
  | name a => exact ⟨_, by rw [spelled, quote_eq quotes]; rfl⟩
  | value v =>
      obtain ⟨digits, form⟩ := placeholder n
      exact ⟨_, by rw [spelled, form]; rfl⟩

/-- Only a name begins with the mark of names. -/
theorem Separate.head_spelled {symbols : List Symbol} (h : Separate symbols)
    (other : ∀ a more, symbols ≠ .name a :: more) (n : Nat) :
    (spelled d n symbols).head? ≠ some mark := by
  obtain ⟨p, -, parameter, placeholder⟩ := placeholder_eq quotes
  cases symbols with
  | nil => simp [spelled]
  | cons x rest =>
      obtain ⟨tail, form⟩ := spelled_cons quotes placeholder n x rest
      rw [form]
      intro same
      have lead : x.lead mark p = mark := Option.some.inj same
      cases x with
      | name a => exact other a rest rfl
      | char c => exact h.1 ((show mark = c from lead.symm) ▸ mark_reserved quotes)
      | value v => exact parameter lead

/-- **Separate symbols are told by their spelling and their values.** -/
theorem Separate.eq_of_spelled {symbols symbols' : List Symbol} (h : Separate symbols)
    (h' : Separate symbols') {n : Nat} (text : spelled d n symbols = spelled d n symbols')
    (values : symbols.filterMap Symbol.value? = symbols'.filterMap Symbol.value?) :
    symbols = symbols' := by
  obtain ⟨p, hp, parameter, placeholder⟩ := placeholder_eq quotes
  have hmark := mark_reserved quotes
  have leads := @spelled_cons d mark quotes p placeholder
  induction symbols generalizing symbols' n with
  | nil =>
      cases symbols' with
      | nil => rfl
      | cons y rest' =>
          obtain ⟨tail, form⟩ := leads n y rest'
          exact absurd (text.trans form) (by simp [spelled])
  | cons x rest ih =>
      obtain ⟨tail, form⟩ := leads n x rest
      cases symbols' with
      | nil => exact absurd (text.symm.trans form) (by simp [spelled])
      | cons y rest' =>
          obtain ⟨tail', form'⟩ := leads n y rest'
          -- Marks stand for names and parameters only, so the first symbols are of one kind.
          have lead : x.lead mark p = y.lead mark p :=
            (List.cons.inj (form.symm.trans (text.trans form'))).1
          cases x with
          | char c =>
              cases y with
              | char c' =>
                  obtain ⟨same, later⟩ := List.cons.inj text
                  rw [same, ih h.2 h'.2 later values]
              | name a' => exact absurd ((show mark = c from lead.symm) ▸ hmark) h.1
              | value v' => exact absurd ((show p = c from lead.symm) ▸ hp) h.1
          | name a =>
              cases y with
              | char c' => exact absurd ((show mark = c' from lead) ▸ hmark) h'.1
              | name a' =>
                  -- No name follows a name, so that neither is followed by a mark of its own kind.
                  rw [spelled, spelled, quote_eq quotes, quote_eq quotes] at text
                  simp only [List.cons_append, List.append_assoc, List.nil_append,
                    List.cons.injEq, true_and] at text
                  obtain ⟨same, later⟩ := Text.doubled_cancel (h.2.head_spelled quotes h.1 n)
                    (h'.2.head_spelled quotes h'.1 n) text
                  rw [String.toList_inj.mp same, ih h.2 h'.2 later values]
              | value v' => exact absurd lead.symm parameter
          | value v =>
              cases y with
              | char c' => exact absurd ((show p = c' from lead) ▸ hp) h'.1
              | name a' => exact absurd lead parameter
              | value v' =>
                  obtain ⟨same, others⟩ := List.cons.inj values
                  have later := List.append_cancel_left text
                  rw [same, @ih rest' h h' (n + 1) later others]

end Quoting

end Sql

end QueryForest
