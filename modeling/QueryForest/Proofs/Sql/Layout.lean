import QueryForest.Proofs.Sql.Erasure

set_option autoImplicit false

/-!
# Laid out queries

Laying out pieces appends a text and the values among the pieces to what is there already
(`writeAll_eq`). The text is made of the pieces without their values: in the place of each value
stands the mark of a parameter, and the marks are numbered one after the other, beginning with the
number of the values that are there already.

`Appends` puts this together for a part of a query. The pieces without their values are those of the
part with its values erased, and the values are those among its tokens, so that they are the same
ones in every dialect.
-/

namespace QueryForest.Sql

/-! ## Pieces and their values -/

def Piece.value? : Piece → Option Value
  | text _ => none
  | value v => some v

/-- The text of a piece; nothing in the place of a value. -/
def Piece.text? : Piece → Option String
  | text s => some s
  | value _ => none

def Token.value? : Token → Option Value
  | value v => some v
  | _ => none

/-- The values among some pieces. -/
def valuesOf (pieces : List Piece) : List Value := pieces.filterMap Piece.value?

/-- The values among some tokens. -/
def valuesIn (tokens : List Token) : List Value := tokens.filterMap Token.value?

/-- What is left of some pieces without their values: texts, with gaps between them. -/
def gapped (pieces : List Piece) : List (Option String) := pieces.map Piece.text?

@[simp] theorem valuesOf_text (s : String) (pieces : List Piece) :
    valuesOf (.text s :: pieces) = valuesOf pieces := rfl

@[simp] theorem valuesOf_value (v : Value) (pieces : List Piece) :
    valuesOf (.value v :: pieces) = v :: valuesOf pieces := rfl

@[simp] theorem gapped_text (s : String) (pieces : List Piece) :
    gapped (.text s :: pieces) = some s :: gapped pieces := rfl

@[simp] theorem gapped_value (v : Value) (pieces : List Piece) :
    gapped (.value v :: pieces) = none :: gapped pieces := rfl

@[simp] theorem Piece.value?_piece (d : Dialect) (t : Token) : (t.piece d).value? = t.value? := by
  cases t <;> rfl

@[simp] theorem Piece.text?_piece_erased (d : Dialect) (t : Token) :
    (t.erased.piece d).text? = (t.piece d).text? := by
  cases t <;> rfl

theorem valuesOf_tokens (d : Dialect) (tokens : List Token) :
    valuesOf (tokens.map (Token.piece d)) = valuesIn tokens := by
  have each : Piece.value? ∘ Token.piece d = Token.value? := funext (Piece.value?_piece d)
  rw [valuesOf, List.filterMap_map, each, valuesIn]

theorem gapped_erased (d : Dialect) (tokens : List Token) :
    gapped ((tokens.map Token.erased).map (Token.piece d))
      = gapped (tokens.map (Token.piece d)) := by
  simp [gapped, Function.comp_def]

/-! ## Numbered marks -/

/-- What is written in the place of a piece: its text, or the mark of a parameter. -/
inductive Mark where
  | text (s : String)
  | parameter (index : Nat)
  deriving DecidableEq

def Mark.written (d : Dialect) : Mark → String
  | text s => s
  | parameter index => d.placeholder index

def Mark.index? : Mark → Option Nat
  | text _ => none
  | parameter index => some index

/-- Texts with parameters in the gaps between them, numbered one after the other from `n` on. -/
def numbered : (n : Nat) → List (Option String) → List Mark
  | _, [] => []
  | n, some s :: rest => .text s :: numbered n rest
  | n, none :: rest => .parameter n :: numbered (n + 1) rest

/-- The marks of a text, written one after the other. -/
def written (d : Dialect) (marks : List Mark) : String :=
  String.join (marks.map (Mark.written d))

theorem written_cons (d : Dialect) (m : Mark) (marks : List Mark) :
    written d (m :: marks) = m.written d ++ written d marks := by
  simp [written]

/-- The parameters have the numbers from `n` on, each once and in their order. -/
theorem indices_numbered (n : Nat) (pieces : List Piece) :
    (numbered n (gapped pieces)).filterMap Mark.index?
      = List.range' n (valuesOf pieces).length := by
  induction pieces generalizing n with
  | nil => rfl
  | cons p pieces ih =>
      cases p with
      | text s => exact ih n
      | value v =>
          show n :: (numbered (n + 1) (gapped pieces)).filterMap Mark.index? = _
          rw [ih (n + 1)]
          exact List.range'_succ.symm

/-- The parameter in the place of a value has the number of the value. -/
theorem getElem?_numbered {pieces : List Piece} {i : Nat} {v : Value}
    (h : pieces[i]? = some (.value v)) (n : Nat) : ∃ k,
      (numbered n (gapped pieces))[i]? = some (.parameter (n + k)) ∧
        (valuesOf pieces)[k]? = some v := by
  induction pieces generalizing i n with
  | nil => exact absurd h (by simp)
  | cons p pieces ih =>
      cases i with
      | zero =>
          obtain rfl : p = .value v := Option.some.inj h
          exact ⟨0, rfl, rfl⟩
      | succ i =>
          cases p with
          | text s => exact ih h n
          | value u =>
              obtain ⟨k, mark, found⟩ := ih h (n + 1)
              exact ⟨k + 1, by rw [Nat.add_comm k 1, ← Nat.add_assoc]; exact mark, found⟩

/-! ## Laying out -/

/-- **Laying out pieces appends the numbered texts, and the values.** -/
theorem writeAll_eq (d : Dialect) (o : Output) (pieces : List Piece) :
    Output.writeAll d o pieces = ⟨o.sql ++ written d (numbered o.params.length (gapped pieces)),
      o.params ++ valuesOf pieces⟩ := by
  induction pieces generalizing o with
  | nil => simp [Output.writeAll, gapped, numbered, written, valuesOf]
  | cons p pieces ih =>
      have step : Output.writeAll d o (p :: pieces) = Output.writeAll d (o.write d p) pieces := rfl
      rw [step, ih]
      cases p with
      | text s => simp [Output.write, numbered, written_cons, Mark.written, String.append_assoc]
      | value v => simp [Output.write, numbered, written_cons, Mark.written, String.append_assoc]

/-- There are as many values among some pieces as there are gaps. -/
theorem length_valuesOf (pieces : List Piece) :
    (valuesOf pieces).length = (gapped pieces).count none := by
  induction pieces with
  | nil => rfl
  | cons p pieces ih => cases p <;> simp [ih]

/-- What a part of a query writes. -/
structure Appends (pieces erased : Dialect → List Piece) (values : List Value) : Prop where
  /-- Text and values are appended to what is there. The text depends on the dialect and on the part
  without its values, and counts the parameters on. -/
  append : ∀ d o, Output.writeAll d o (pieces d)
    = ⟨o.sql ++ written d (numbered o.params.length (gapped (erased d))), o.params ++ values⟩
  /-- The gaps are just the places of the values. -/
  places : ∀ d, gapped (pieces d) = gapped (erased d)
  /-- The values stand in the order in which they are written, and are the same in each dialect. -/
  values : ∀ d, valuesOf (pieces d) = values

/-- What has the tokens of its erased part without their values writes as it should. -/
theorem Appends.of_tokens {pieces erased : Dialect → List Piece} {tokens erasedTokens : List Token}
    (hpieces : ∀ d, pieces d = tokens.map (Token.piece d))
    (herased : ∀ d, erased d = erasedTokens.map (Token.piece d))
    (same : erasedTokens = tokens.map Token.erased) :
    Appends pieces erased (valuesIn tokens) := by
  have places (d : Dialect) : gapped (pieces d) = gapped (erased d) := by
    rw [hpieces, herased, same, gapped_erased]
  have values (d : Dialect) : valuesOf (pieces d) = valuesIn tokens := by
    rw [hpieces, valuesOf_tokens]
  exact ⟨fun d o => by rw [writeAll_eq, places, values], places, values⟩

/-! ## Statements -/

/-- Whether a text numbers its parameters through and binds each of them to the value in its place.
-/
structure Bound (d : Dialect) (pieces : List Piece) (sql : String) (params : List Value) : Prop where
  text : sql = written d (numbered 0 (gapped pieces))
  /-- The numbers of the parameters: none is left out, and none comes twice. -/
  numbers : (numbered 0 (gapped pieces)).filterMap Mark.index? = List.range params.length
  /-- In the place of a value stands the number of a parameter, which is this value. -/
  bound : ∀ (i : Nat) (v : Value), pieces[i]? = some (.value v) → ∃ k : Nat,
    (numbered 0 (gapped pieces))[i]? = some (.parameter k) ∧ params[k]? = some v

theorem bound_writeAll (d : Dialect) (pieces : List Piece) :
    Bound d pieces (Output.writeAll d {} pieces).sql (Output.writeAll d {} pieces).params := by
  rw [writeAll_eq]
  have params : ([] : List Value) ++ valuesOf pieces = valuesOf pieces := List.nil_append _
  refine ⟨by simp, ?_, fun i v h => ?_⟩
  · rw [params, List.range_eq_range']
    exact indices_numbered 0 pieces
  · obtain ⟨k, mark, found⟩ := getElem?_numbered h 0
    exact ⟨k, by rwa [Nat.zero_add] at mark, by rwa [params]⟩

end QueryForest.Sql
