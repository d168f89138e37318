import QueryForest.Value.Text

set_option autoImplicit false

/-!
# Reading literals back

A literal is read by the rule of SQL: a quotation mark opens it, two of them inside it stand for one, and a
single one closes it. So a text between quotation marks ends where it was meant to end, whatever it contains
(`enclosed?_enclosed`), and the literal of a text, of a list of texts or of bytes is read back as a whole
(`read_literal`).
-/

namespace QueryForest

namespace Text

/-! ## Text between quotation marks -/

/-- The text up to the mark that closes it, and what comes behind. -/
def inside? (mark : Char) : List Char → Option (List Char × List Char)
  | [] => none
  | [c] => if c = mark then some ([], []) else none
  | c :: d :: cs =>
    if c ≠ mark then (inside? mark (d :: cs)).map fun (s, rest) => (c :: s, rest)
    else if d = mark then (inside? mark cs).map fun (s, rest) => (mark :: s, rest)
    else some ([], d :: cs)

/-- The text that a mark opens, and what comes behind the mark that closes it. -/
def enclosed? (mark : Char) : List Char → Option (List Char × List Char)
  | [] => none
  | c :: cs => if c = mark then inside? mark cs else none

theorem inside?_cons {mark c : Char} (other : c ≠ mark) (cs : List Char) :
    inside? mark (c :: cs) = (inside? mark cs).map fun (s, rest) => (c :: s, rest) := by
  cases cs <;> simp [inside?, other]

theorem inside?_doubled (mark : Char) (s : List Char) {rest : List Char}
    (other : rest.head? ≠ some mark) :
    inside? mark (doubled mark s ++ mark :: rest) = some (s, rest) := by
  induction s with
  | nil =>
      cases rest with
      | nil => simp [doubled, inside?]
      | cons d rest =>
          have next : d ≠ mark := fun same => other (same ▸ rfl)
          simp [doubled, inside?, next]
  | cons c s ih =>
      by_cases same : c = mark
      · subst same
        simp [doubled, inside?, ih]
      · simp [doubled, inside?_cons same, same, ih]

/-- **A quoted text is read up to its end, and no further**, whatever it contains. -/
theorem enclosed?_enclosed (mark : Char) (s : String) (rest : List Char)
    (other : rest.head? ≠ some mark) :
    enclosed? mark ((enclosed mark s).toList ++ rest) = some (s.toList, rest) := by
  simp [enclosed, enclosed?, inside?_doubled mark s.toList other]

theorem length_of_inside? {mark : Char} {cs s rest : List Char} (h : inside? mark cs = some (s, rest)) :
    rest.length < cs.length := by
  fun_induction inside? mark cs generalizing s with
  | case1 => exact absurd h nofun
  | case2 =>
      obtain ⟨-, rfl⟩ := Prod.mk.inj (Option.some.inj h)
      exact Nat.zero_lt_one
  | case3 => exact absurd h nofun
  | case4 c d cs other ih =>
      obtain ⟨⟨s', rest'⟩, found, same⟩ := Option.map_eq_some_iff.mp h
      obtain ⟨-, rfl⟩ := Prod.mk.inj same
      exact Nat.lt_succ_of_lt (ih found)
  | case5 c cs one ih =>
      obtain ⟨⟨s', rest'⟩, found, same⟩ := Option.map_eq_some_iff.mp h
      obtain ⟨-, rfl⟩ := Prod.mk.inj same
      exact Nat.lt_succ_of_lt (Nat.lt_succ_of_lt (ih found))
  | case6 c d cs one other =>
      obtain ⟨-, rfl⟩ := Prod.mk.inj (Option.some.inj h)
      exact Nat.lt_succ_self _

theorem length_of_enclosed? {mark : Char} {cs s rest : List Char}
    (h : enclosed? mark cs = some (s, rest)) : rest.length < cs.length := by
  cases cs with
  | nil => exact absurd h nofun
  | cons c cs =>
      rw [enclosed?] at h
      split at h
      · exact Nat.lt_succ_of_lt (length_of_inside? h)
      · exact absurd h nofun

/-! ## Bytes -/

/-- **Bytes are read back from their digits.** -/
theorem hexBytes?_hexBytes (bytes : List UInt8) : hexBytes? (hexBytes bytes).toList = some bytes := by
  rw [hexBytes, String.toList_ofList]
  induction bytes with
  | nil => rfl
  | cons b bytes ih =>
      have small : b.toNat < 256 := b.toNat_lt
      have high := hexDigit?_hexDigit (b.toNat / 16 % 16) (Nat.mod_lt _ (by omega))
      have low := hexDigit?_hexDigit (b.toNat % 16) (Nat.mod_lt _ (by omega))
      have whole : 16 * (b.toNat / 16 % 16) + b.toNat % 16 = b.toNat := by omega
      have number : hexNumber? [hexDigit (b.toNat / 16 % 16), hexDigit (b.toNat % 16)] = some b.toNat := by
        simp [hexNumber?, high, low, whole]
      have digits : hexDigits 2 b.toNat
          = [hexDigit (b.toNat / 16 % 16), hexDigit (b.toNat % 16)] := rfl
      rw [List.flatMap_cons, digits, List.cons_append, List.cons_append, List.nil_append, hexBytes?,
        number, ih]
      simp

end Text

namespace Value

/-! ## Literals -/

/-- What a literal says. -/
inductive Content where
  | text (s : String)
  | bytes (b : List UInt8)
  | list (items : List String)
  deriving DecidableEq

/-- The text of a literal, if nothing comes behind it. -/
def text? (cs : List Char) : Option (List Char) :=
  match Text.enclosed? literalMark cs with
  | some (s, []) => some s
  | _ => none

/-- Literals with commas between them, up to the parenthesis at the end. -/
def items? (cs : List Char) : Option (List String) :=
  match _read : Text.enclosed? literalMark cs with
  | some (s, [')']) => some [String.ofList s]
  | some (s, ',' :: ' ' :: rest) => (items? rest).map (String.ofList s :: ·)
  | _ => none
  termination_by cs.length
  decreasing_by
    have shorter := Text.length_of_enclosed? _read
    simp only [List.length_cons] at shorter
    omega

/-- Reads a literal by the rule of SQL. Nothing may come behind it. -/
def Content.read? (literal : String) : Option Content :=
  match literal.toList with
  | 'X' :: cs => (text? cs).bind fun s => (Text.hexBytes? s).map bytes
  | ['(', ')'] => some (list [])
  | '(' :: cs => (items? cs).map list
  | cs => (text? cs).map fun s => text (String.ofList s)

/-- The value that a literal was written for, if it was not a JSON value. -/
def Content.value : Content → Value
  | text s => string s
  | bytes b => .bytes b
  | list items => stringArray items

theorem text?_quoted (s : String) : text? (quoted s).toList = some s.toList := by
  have read := Text.enclosed?_enclosed literalMark s [] nofun
  rw [List.append_nil] at read
  rw [text?, quoted, read]

theorem items?_last {cs s : List Char} (read : Text.enclosed? literalMark cs = some (s, [')'])) :
    items? cs = some [String.ofList s] := by
  rw [items?]
  split <;> simp_all

theorem items?_next {cs s rest : List Char}
    (read : Text.enclosed? literalMark cs = some (s, ',' :: ' ' :: rest)) :
    items? cs = (items? rest).map (String.ofList s :: ·) := by
  rw [items?]
  split <;> simp_all

/-- **Lists are read back item by item**, wherever commas and parentheses stand in the items. -/
theorem items?_intercalate (s : String) (items : List String) :
    items? ((String.intercalate ", " ((s :: items).map quoted)).toList ++ [')']) = some (s :: items) := by
  induction items generalizing s with
  | nil =>
      have single : (String.intercalate ", " ([s].map quoted)).toList ++ [')']
          = (quoted s).toList ++ [')'] := by simp
      have read := Text.enclosed?_enclosed literalMark s [')'] (by decide)
      rw [single, quoted, items?_last read, String.ofList_toList]
  | cons t items ih =>
      let rest := (String.intercalate ", " ((t :: items).map quoted)).toList ++ [')']
      have first : (String.intercalate ", " ((s :: t :: items).map quoted)).toList ++ [')']
          = (quoted s).toList ++ ',' :: ' ' :: rest := by
        simp [rest, String.intercalate_cons_cons]
      have read := Text.enclosed?_enclosed literalMark s (',' :: ' ' :: rest) (by simp [literalMark])
      rw [first, quoted, items?_next read, ih t, String.ofList_toList]
      rfl

theorem toList_quoted (s : String) :
    ∃ cs, (quoted s).toList = literalMark :: cs :=
  ⟨Text.doubled literalMark s.toList ++ [literalMark], by simp [quoted, Text.enclosed]⟩

theorem read?_quoted (s : String) : Content.read? (quoted s) = some (.text s) := by
  obtain ⟨cs, marked⟩ := toList_quoted s
  have read := text?_quoted s
  rw [marked] at read
  have opened : Content.read? (quoted s)
      = (text? (literalMark :: cs)).map fun s => .text (String.ofList s) := by
    rw [Content.read?, marked]
    rfl
  rw [opened, read, Option.map_some, String.ofList_toList]

theorem read?_bytes (b : List UInt8) : Content.read? (bytes b).literal = some (.bytes b) := by
  have marked : (bytes b).literal.toList = 'X' :: (quoted (Text.hexBytes b)).toList := by
    simp [literal]
  have opened : Content.read? (bytes b).literal
      = (text? (quoted (Text.hexBytes b)).toList).bind fun s => (Text.hexBytes? s).map .bytes := by
    rw [Content.read?, marked]
    rfl
  rw [opened, text?_quoted, Option.bind_some, Text.hexBytes?_hexBytes, Option.map_some]

theorem read?_stringArray (items : List String) :
    Content.read? (stringArray items).literal = some (.list items) := by
  cases items with
  | nil => rfl
  | cons s items =>
      let inside := (String.intercalate ", " ((s :: items).map quoted)).toList ++ [')']
      have marked : (stringArray (s :: items)).literal.toList = '(' :: inside := by
        simp [literal, inside]
      obtain ⟨cs, first⟩ : ∃ cs, inside = literalMark :: cs := by
        obtain ⟨cs, first⟩ := toList_quoted s
        cases items <;> exact ⟨_, by simp [inside, first]; rfl⟩
      have opened : Content.read? (stringArray (s :: items)).literal = (items? inside).map .list := by
        rw [Content.read?, marked, first]
        rfl
      rw [opened, items?_intercalate, Option.map_some]

/-- Whether a value is a text, a list of texts or bytes. -/
def isText : Value → Bool
  | string _ => true
  | stringArray _ => true
  | bytes _ => true
  | _ => false

theorem value_read? {v : Value} (text : v.isText) : (Content.read? v.literal).map Content.value = some v := by
  cases v with
  | string s => rw [literal, read?_quoted]; rfl
  | stringArray items => rw [read?_stringArray]; rfl
  | bytes b => rw [read?_bytes]; rfl
  | _ => exact absurd text Bool.false_ne_true

/-- **Literals cannot be broken out of.** By the rule of SQL the literal of a text, of a JSON value, of a list
of texts and of bytes is read back as a whole, and gives the text, the JSON text, the texts of the list in
their order or the bytes, whatever these contain. So values that are texts, lists of texts or bytes have the
same literal only if they are the same. -/
theorem read_literal :
    (∀ s, Content.read? (string s).literal = some (.text s)) ∧
    (∀ j : Json, Content.read? (json j).literal = some (.text j.text)) ∧
    (∀ items, Content.read? (stringArray items).literal = some (.list items)) ∧
    (∀ b, Content.read? (bytes b).literal = some (.bytes b)) ∧
    ∀ v w : Value, v.isText → w.isText → v.literal = w.literal → v = w := by
  refine ⟨fun s => read?_quoted s, fun j => read?_quoted j.text, read?_stringArray, read?_bytes, ?_⟩
  intro v w hv hw same
  have read := value_read? hv
  rw [same, value_read? hw] at read
  exact (Option.some.inj read).symm

/-- A list whose second text looks like the end of the list and the beginning of another one. -/
def nested : List String := ["", "'), ('", "it''s"]

theorem read_literal_nested : Content.read? (stringArray nested).literal = some (.list nested) ∧
    (stringArray nested).literal = (stringArray nested.reverse.reverse).literal ∧
    stringArray nested = stringArray nested.reverse.reverse := by
  obtain ⟨-, -, list, -, injective⟩ := read_literal
  have same : (stringArray nested).literal = (stringArray nested.reverse.reverse).literal := rfl
  exact ⟨list nested, same, injective _ _ rfl rfl same⟩

/-- A mark that stands alone ends the literal, so that something comes behind it. -/
example : Content.read? "'it's'" = none := by decide +kernel

end Value

end QueryForest
