import QueryForest.Proofs.Sql.Forms

set_option autoImplicit false

/-!
# The forms of queries have separate symbols

In a query of one of the forms no character outside of names is a mark, and there is a word between
any two names (`Select.Formed.separate`). So the text of the query and its parameters have only one
sequence of symbols.
-/

namespace QueryForest.Sql

/-! ## Words between symbols -/

variable {α : Type} {w : α → List Symbol} {x y : List Symbol} {k : String}

theorem separate_word (hk : plain k = true) : Separate (chars k) := by
  have alone := (separate_chars hk).mpr (show Separate [] from trivial)
  rwa [List.append_nil] at alone

theorem separate_behind (hk : plain k = true) (hx : Separate x) : Separate (chars k ++ x) :=
  (separate_chars hk).mpr hx

theorem separate_closed (hx : Separate x) : Separate (x ++ chars ")") := by
  have closed := (@separate_append_chars x [] ")" (by decide)).mpr ⟨hx, trivial⟩
  rwa [List.append_nil] at closed

theorem separate_between (hk : plain k = true) (hx : Separate x) (hy : Separate y) :
    Separate (x ++ (chars k ++ y)) :=
  (separate_append_chars hk).mpr ⟨hx, hy⟩

theorem separate_flatMap (hk : plain k = true) (hx : Separate x) {l : List α}
    (hl : ∀ a ∈ l, Separate (w a)) : Separate (x ++ l.flatMap fun a => chars k ++ w a) := by
  induction l generalizing x with
  | nil => rwa [List.flatMap_nil, List.append_nil]
  | cons a l ih =>
      rw [List.flatMap_cons, ← List.append_assoc]
      refine ih ?_ fun b mem => hl b (List.mem_cons_of_mem _ mem)
      exact separate_between hk hx (hl a List.mem_cons_self)

theorem separate_commas {items : List (List Symbol)} (h : ∀ item ∈ items, Separate item) :
    Separate (commas items) := by
  cases items with
  | nil => trivial
  | cons first rest =>
      exact separate_flatMap (by decide) (h first List.mem_cons_self) fun item mem =>
        h item (List.mem_cons_of_mem _ mem)

theorem separate_optional (hk : plain k = true) (hx : Separate x) {o : Option α}
    (ho : ∀ a ∈ o, Separate (w a)) : Separate (x ++ optional (fun a => chars k ++ w a) o) := by
  cases o with
  | none => rwa [optional, List.append_nil]
  | some a => exact separate_between hk hx (ho a rfl)

theorem separate_listed (hk : plain k = true) (hx : Separate x) {items : List (List Symbol)}
    (h : ∀ item ∈ items, Separate item) : Separate (x ++ listed k items) := by
  unfold listed
  split
  · rwa [List.append_nil]
  · exact separate_between hk hx (separate_commas h)

/-! ## Expressions -/

theorem separate_name (a : String) : Separate [.name a] := by simp [Separate]

theorem separate_column (a c : String) : Separate (Expr.column a c).symbols :=
  separate_between (by decide) (separate_name a) (separate_name c)

theorem Expr.IsColumn.separate {e : Expr} (h : e.IsColumn) : Separate e.symbols := by
  obtain ⟨a, c, rfl⟩ := h
  exact separate_column a c

theorem Expr.IsValue.separate {e : Expr} (h : e.IsValue) : Separate e.symbols := by
  obtain ⟨v, rfl⟩ := h
  trivial

theorem isDigit_of_mem_toString {n : Nat} {c : Char} (h : c ∈ (toString n).toList) :
    c.isDigit = true := by
  have digits : (toString n).toList = Nat.toDigits 10 n := String.toList_ofList
  exact Nat.isDigit_of_mem_toDigits (by decide) (by decide) (digits ▸ h)

/-- A digit is no mark. -/
theorem separate_digits (n : Nat) : Separate (chars (toString n)) := by
  have clean : ∀ c ∈ (toString n).toList, c ∉ reserved := by
    intro c mem mark
    have digit := isDigit_of_mem_toString mem
    simp only [reserved, List.mem_cons, List.not_mem_nil, or_false] at mark
    rcases mark with rfl | rfl | rfl | rfl <;> exact absurd digit (by decide)
  have alone := (separate_map clean).mpr (show Separate [] from trivial)
  rwa [List.append_nil] at alone

theorem Argument.separate_call (x : Argument) (f : AggregateFunction) :
    Separate (x.call f).symbols := by
  have inside : Separate x.symbols := by
    cases x with
    | rows => exact separate_word (by decide)
    | column distinct a c =>
        cases distinct with
        | false => exact separate_column a c
        | true => exact separate_behind (by decide) (separate_column a c)
  rw [symbols_call]
  exact separate_behind (by cases f <;> decide) (separate_closed inside)

theorem Expr.Scaled.separate {e : Expr} (h : e.Scaled) : Separate e.symbols := by
  cases h with
  | call f x => exact x.separate_call f
  | rounded f x places =>
      rw [x.symbols_rounded]
      refine separate_behind (by decide) ?_
      exact separate_between (by decide) (x.separate_call f)
        (separate_closed (separate_digits places))

theorem Expr.Shown.separate {e : Expr} (h : e.Shown) : Separate e.symbols := by
  obtain ⟨shown, aliasName, result, rfl⟩ := h
  have inside : Separate shown.symbols := by
    cases result with
    | column a c => exact separate_column a c
    | wildcard a =>
        rw [symbols_wildcard]
        exact separate_between (by decide) (separate_name a) (separate_word (by decide))
    | scaled h => exact h.separate
  rw [symbols_underAlias]
  exact separate_optional (by decide) inside fun a _ => separate_name a

theorem OrderItem.Formed.separate {o : OrderItem} (h : o.Formed) : Separate o.symbols := by
  obtain ⟨e, direction, nulls, ignoreCase⟩ := o
  obtain ⟨column, dir, rfl⟩ := h
  have key : Separate e.symbols := column.separate
  rw [OrderItem.symbols_eq]
  refine separate_between (by cases dir <;> decide) ?_ ?_
  · split
    · exact separate_behind (by decide) (separate_closed key)
    · exact key
  · cases nulls with
    | unspecified => trivial
    | first | last => exact separate_word (by decide)

/-! ## Queries -/

section Nested

variable {Q : Select → Prop} (inside : ∀ s, Q s → Separate s.symbols)

include inside

theorem Ending.Formed.separate {t : Ending} (h : t.Formed Q) {x : List Symbol} (hx : Separate x) :
    Separate (x ++ t.symbols) := by
  cases h with
  | isNull negated =>
      have behind := separate_between (k := nullWord negated) (by cases negated <;> decide) hx
        (show Separate [] from trivial)
      rwa [List.append_nil] at behind
  | @inList values some negated =>
      refine separate_between (by cases negated <;> decide) hx (separate_closed (separate_commas ?_))
      intro item mem
      obtain ⟨v, -, rfl⟩ := List.mem_map.mp mem
      trivial
  | @inSelect s hs negated =>
      exact separate_between (by cases negated <;> decide) hx (separate_closed (inside s hs))

theorem Expr.Formed.separate {e : Expr} (h : e.Formed Q) : Separate e.symbols := by
  induction h with
  | atom h =>
      cases h with
      | @tested a c o ends =>
          rw [symbols_ended]
          cases o with
          | none =>
              rw [optional, List.append_nil]
              exact separate_column a c
          | some t => exact (ends t rfl).separate inside (separate_column a c)
      | value v => trivial
      | scaled h => exact h.separate
      | literal negated =>
          rw [symbols_literal]
          exact separate_word (by cases negated <;> decide)
      | existsSelect hs negated =>
          rw [symbols_existsSelect]
          exact separate_behind (by cases negated <;> decide) (separate_closed (inside _ hs))
  | binary op hl hr ihl ihr =>
      rw [symbols_binary]
      refine separate_behind (by decide) ?_
      exact separate_between (by cases op <;> decide) ihl (separate_closed ihr)

theorem TableSource.Formed.separate {source : TableSource} (h : source.Formed Q) :
    Separate source.symbols := by
  cases h with
  | table name => exact separate_name name
  | select hs =>
      rw [symbols_select]
      exact separate_behind (by decide) (separate_closed (inside _ hs))

theorem FromItem.Formed.separate {item : FromItem} (h : item.Formed Q) : Separate item.symbols := by
  obtain ⟨source, aliasName⟩ := item
  obtain ⟨hs, a, rfl⟩ := h
  rw [symbols_eq]
  exact separate_between (by decide) (hs.separate inside) (separate_name a)

theorem JoinItem.Formed.separate {j : JoinItem} (h : j.Formed Q) : Separate j.symbols := by
  obtain ⟨kind, source, aliasName, on⟩ := j
  obtain ⟨hs, ⟨a, rfl⟩, hon⟩ := h
  refine (separate_chars (s := " ") (by decide)).mp ?_
  rw [symbols_eq]
  refine separate_behind (by cases kind <;> decide) ?_
  refine separate_between (by decide) (hs.separate inside) ?_
  exact separate_between (by decide) (separate_name a) (hon.separate inside)

/-- **A query of one of the forms has separate symbols**, if the queries nested in it have. -/
theorem Select.Formed.separate {s : Select} (h : s.Formed Q) : Separate s.symbols := by
  have mapped {α : Type} {w : α → List Symbol} {l : List α} (hl : ∀ a ∈ l, Separate (w a)) :
      ∀ item ∈ l.map w, Separate item := by
    intro item mem
    obtain ⟨a, ha, rfl⟩ := List.mem_map.mp mem
    exact hl a ha
  have columns := separate_behind (k := "SELECT ") (by decide)
    (separate_commas (mapped fun e he => (h.columns e he).separate))
  have source := separate_optional (k := " FROM ") (by decide) columns
    fun item hitem => (h.source item hitem).separate inside
  have joins := separate_flatMap (k := " ") (by decide) source
    fun j hj => (h.joins j hj).separate inside
  have condition := separate_optional (k := " WHERE ") (by decide) joins
    fun e he => (h.condition e he).separate inside
  have groups := separate_listed (k := " GROUP BY ") (by decide) condition
    (mapped fun e he => (h.groups e he).separate)
  have having := separate_optional (k := " HAVING ") (by decide) groups
    fun e he => (h.having e he).separate inside
  have order := separate_listed (k := " ORDER BY ") (by decide) having
    (mapped fun o ho => (h.order o ho).separate)
  have limit := separate_optional (k := " LIMIT ") (by decide) order
    fun e he => (h.limit e he).separate
  have offset := separate_optional (k := " OFFSET ") (by decide) limit
    fun e he => (h.offset e he).separate
  rw [symbols_eq]
  simpa only [List.append_assoc] using offset

end Nested

theorem Built.separate {depth : Nat} {s : Select} (h : Built depth s) : Separate s.symbols := by
  induction depth generalizing s with
  | zero => exact h.elim
  | succ depth ih => exact Select.Formed.separate (fun _ hs => ih hs) h

end QueryForest.Sql
