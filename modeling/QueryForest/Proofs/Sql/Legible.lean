import QueryForest.Proofs.Sql.Symbols

set_option autoImplicit false

/-!
# Legible writings

A writing of things as symbols is legible when a thing can be told from what begins with its symbols,
and so can the point where they end. For many things this takes some care of what may follow: a list
of items ends where no comma follows. `Legible P w F` says that `w` is legible on the things with
`P`, as long as what follows satisfies `F`.

Words are told `apart` when neither is the beginning of the other. What follows is described by the
words that it can begin with (`Ahead`) or that it does not begin with (`Off`). Each way of putting
writings together has one lemma: one thing behind another, a choice, something that may be missing,
and lists. With them a writing is shown to be legible in the order in which it is put together.
-/

namespace QueryForest.Sql

/-! ## Words -/

@[simp] theorem chars_append (s s' : String) : chars (s ++ s') = chars s ++ chars s' := by
  simp [chars]

/-- Whether two words are told apart by what they begin with. -/
def apart (k k' : String) : Bool :=
  !k.toList.isPrefixOf k'.toList && !k'.toList.isPrefixOf k.toList

theorem chars_ne {k k' : String} (h : apart k k' = true) (x y : List Symbol) :
    chars k ++ x ≠ chars k' ++ y := by
  intro same
  have injective : Function.Injective Symbol.char := fun _ _ => Symbol.char.inj
  have comparable : chars k <+: chars k' ∨ chars k' <+: chars k :=
    List.prefix_or_prefix_of_prefix (List.prefix_append _ x) (same ▸ List.prefix_append _ y)
  unfold chars at comparable
  rw [List.prefix_map_iff_of_injective injective, List.prefix_map_iff_of_injective injective,
    ← List.isPrefixOf_iff_prefix, ← List.isPrefixOf_iff_prefix] at comparable
  unfold apart at h
  rcases comparable with shorter | shorter
  · rw [shorter] at h
    exact absurd h (by simp)
  · rw [shorter] at h
    exact absurd h (by simp)

/-- Whether a word is told apart from some words, and from nothing. -/
def Clear (k : String) (ks : List String) : Prop := k ≠ "" ∧ ∀ k' ∈ ks, apart k' k = true

instance (k : String) (ks : List String) : Decidable (Clear k ks) :=
  inferInstanceAs (Decidable (_ ∧ _))

/-- Whether some symbols begin with one of some words. -/
def Begins (ks : List String) (r : List Symbol) : Prop := ∃ k ∈ ks, ∃ x, r = chars k ++ x

/-- Whether there are no symbols, or they begin with one of some words. -/
def Ahead (ks : List String) (r : List Symbol) : Prop := r = [] ∨ Begins ks r

/-- Whether some symbols begin with none of some words. -/
def Off (ks : List String) (r : List Symbol) : Prop := ¬ Begins ks r

variable {r : List Symbol} {ks ks' : List String} {k : String}

theorem Begins.word (mem : k ∈ ks) (x : List Symbol) : Begins ks (chars k ++ x) := ⟨k, mem, x, rfl⟩

theorem Begins.append (h : Begins ks r) (r' : List Symbol) : Begins ks (r ++ r') := by
  obtain ⟨k, mem, x, rfl⟩ := h
  rw [List.append_assoc]
  exact Begins.word mem _

theorem Begins.mono (h : Begins ks r) (sub : ∀ k ∈ ks, k ∈ ks') : Begins ks' r := by
  obtain ⟨k, mem, x, rfl⟩ := h
  exact Begins.word (sub k mem) x

theorem Ahead.mono (h : Ahead ks r) (sub : ∀ k ∈ ks, k ∈ ks') : Ahead ks' r :=
  h.imp_right fun begins => begins.mono sub

theorem Ahead.word (mem : k ∈ ks) (x : List Symbol) : Ahead ks (chars k ++ x) :=
  Or.inr (Begins.word mem x)

theorem Ahead.off (h : Ahead ks r) (clear : ∀ k ∈ ks', Clear k ks) : Off ks' r := by
  rintro ⟨k, mem, y, same⟩
  obtain ⟨some, each⟩ := clear k mem
  rcases h with rfl | ⟨k', mem', x, rfl⟩
  · exact some (by simpa [chars] using (List.append_eq_nil_iff.mp same.symm).1)
  · exact chars_ne (each k' mem') x y same

/-! ## Legible writings -/

/-- Things with `P` are told from what begins with their symbols, as long as what follows satisfies
`F`. -/
structure Legible {α : Type} (P : α → Prop) (w : α → List Symbol) (F : List Symbol → Prop) : Prop where
  told : ∀ {a b : α} {r r' : List Symbol}, P a → P b → F r → F r' → w a ++ r = w b ++ r' →
    a = b ∧ r = r'

/-- Anything may follow. -/
def Any (_ : List Symbol) : Prop := True

/-- The symbols of something that may be missing. -/
def optional {α : Type} (w : α → List Symbol) : Option α → List Symbol
  | none => []
  | some a => w a

/-- The symbols of items with commas between them. -/
def commas : List (List Symbol) → List Symbol
  | [] => []
  | first :: rest => first ++ rest.flatMap fun item => chars ", " ++ item

/-- The symbols of a clause of a list; nothing when the list is empty. -/
def listed (k : String) (items : List (List Symbol)) : List Symbol :=
  if items.isEmpty then [] else chars k ++ commas items

namespace Ahead

variable {α : Type} {P : α → Prop} {w : α → List Symbol}

/-! ## What is ahead of a clause -/

theorem clause (h : Ahead ks r) (k : String) (o : Option α) :
    Ahead (k :: ks) (optional (fun a => chars k ++ w a) o ++ r) := by
  cases o with
  | none => exact h.mono fun _ mem => List.mem_cons_of_mem _ mem
  | some a =>
      show Ahead (k :: ks) (chars k ++ w a ++ r)
      rw [List.append_assoc]
      exact word List.mem_cons_self _

theorem listed (h : Ahead ks r) (k : String) (items : List (List Symbol)) :
    Ahead (k :: ks) (listed k items ++ r) := by
  unfold Sql.listed
  split
  · exact h.mono fun _ mem => List.mem_cons_of_mem _ mem
  · rw [List.append_assoc]
    exact word List.mem_cons_self _

theorem flatMap (h : Ahead ks r) {l : List α} (begins : ∀ a ∈ l, Begins ks' (w a)) :
    Ahead (ks' ++ ks) (l.flatMap w ++ r) := by
  cases l with
  | nil => exact h.mono fun _ mem => List.mem_append_right _ mem
  | cons a l =>
      rw [List.flatMap_cons, List.append_assoc]
      have first := (begins a List.mem_cons_self).append (l.flatMap w ++ r)
      exact Or.inr (first.mono fun _ mem => List.mem_append_left _ mem)

end Ahead

namespace Legible

variable {α β : Type} {P P' : α → Prop} {Q : β → Prop} {w : α → List Symbol} {v : β → List Symbol}
  {F G : List Symbol → Prop}

theorem mono (h : Legible P w F) (less : ∀ a, P' a → P a) (follow : ∀ r, G r → F r) :
    Legible P' w G :=
  ⟨fun ha hb hr hr' same => h.told (less _ ha) (less _ hb) (follow _ hr) (follow _ hr') same⟩

/-- Where anything may follow, so may this. -/
theorem any (h : Legible P w Any) : Legible P w F := h.mono (fun _ ha => ha) fun _ _ => trivial

/-- Things that are written like others, from which they are made. -/
theorem of (h : Legible Q v F) (make : β → α)
    (made : ∀ a, P a → ∃ b, Q b ∧ make b = a ∧ w a = v b) : Legible P w F where
  told := by
    intro a a' r r' ha ha' hr hr' same
    obtain ⟨b, hb, rfl, form⟩ := made a ha
    obtain ⟨b', hb', rfl, form'⟩ := made a' ha'
    rw [form, form'] at same
    obtain ⟨rfl, rest⟩ := h.told hb hb' hr hr' same
    exact ⟨rfl, rest⟩

theorem name : Legible (fun _ : String => True) (fun n => [.name n]) Any where
  told := by
    intro a b r r' _ _ _ _ same
    obtain ⟨same, rest⟩ := List.cons.inj same
    exact ⟨Symbol.name.inj same, rest⟩

theorem value : Legible (fun _ : Value => True) (fun v => [.value v]) Any where
  told := by
    intro a b r r' _ _ _ _ same
    obtain ⟨same, rest⟩ := List.cons.inj same
    exact ⟨Symbol.value.inj same, rest⟩

/-- A choice of words. -/
theorem words {word : α → String} (distinct : ∀ a b, a = b ∨ apart (word a) (word b) = true) :
    Legible (fun _ => True) (fun a => chars (word a)) Any where
  told := by
    intro a b r r' _ _ _ _ same
    rcases distinct a b with rfl | different
    · exact ⟨rfl, List.append_cancel_left same⟩
    · exact absurd same (chars_ne different r r')

/-- Something behind a word. -/
theorem keyword (h : Legible P w F) (k : String) : Legible P (fun a => chars k ++ w a) F where
  told := by
    intro a b r r' ha hb hr hr' same
    rw [List.append_assoc, List.append_assoc] at same
    exact h.told ha hb hr hr' (List.append_cancel_left same)

/-- Something before a word. -/
theorem before (h : Legible P w F) (k : String) (follow : ∀ r, F (chars k ++ r)) :
    Legible P (fun a => w a ++ chars k) Any where
  told := by
    intro a b r r' ha hb _ _ same
    rw [List.append_assoc, List.append_assoc] at same
    obtain ⟨rfl, rest⟩ := h.told ha hb (follow r) (follow r') same
    exact ⟨rfl, List.append_cancel_left rest⟩

/-- One thing behind another. -/
theorem pair (first : Legible P w F) (second : Legible Q v G)
    (follow : ∀ b r, Q b → G r → F (v b ++ r)) :
    Legible (fun p : α × β => P p.1 ∧ Q p.2) (fun p => w p.1 ++ v p.2) G where
  told := by
    intro p p' r r' hp hp' hr hr' same
    rw [List.append_assoc, List.append_assoc] at same
    obtain ⟨left, rest⟩ := first.told hp.1 hp'.1 (follow _ r hp.2 hr) (follow _ r' hp'.2 hr') same
    obtain ⟨right, rest⟩ := second.told hp.2 hp'.2 hr hr' rest
    exact ⟨Prod.ext left right, rest⟩

/-- A choice between two kinds of things that are never written alike. -/
theorem either (h : Legible P w F) (h' : Legible P' w F)
    (differ : ∀ a b r r', P a → P' b → w a ++ r ≠ w b ++ r') :
    Legible (fun a => P a ∨ P' a) w F where
  told := by
    intro a b r r' ha hb hr hr' same
    rcases ha with ha | ha
    · rcases hb with hb | hb
      · exact h.told ha hb hr hr' same
      · exact absurd same (differ a b r r' ha hb)
    · rcases hb with hb | hb
      · exact absurd same.symm (differ b a r' r hb ha)
      · exact h'.told ha hb hr hr' same

/-! ## What may be missing, and lists -/

/-- Something that may be missing is there when one of the words is that it begins with. -/
theorem option (h : Legible P w F) (begins : ∀ a, P a → Begins ks (w a))
    (off : ∀ r, F r → Off ks r) :
    Legible (fun o : Option α => ∀ a ∈ o, P a) (optional w) F where
  told := by
    have missing {a : α} {r r' : List Symbol} (ha : P a) (hr : F r) : r ≠ w a ++ r' :=
      fun same => off r hr (same ▸ (begins a ha).append r')
    intro o o' r r' ho ho' hr hr' same
    cases o with
    | none =>
        cases o' with
        | none => exact ⟨rfl, same⟩
        | some b => exact absurd same (missing (ho' b rfl) hr)
    | some a =>
        cases o' with
        | none => exact absurd same.symm (missing (ho a rfl) hr')
        | some b =>
            obtain ⟨rfl, rest⟩ := h.told (ho a rfl) (ho' b rfl) hr hr' same
            exact ⟨rfl, rest⟩

/-- A clause that may be missing. -/
theorem clause (h : Legible P w (Ahead ks)) (clear : Clear k ks) :
    Legible (fun o : Option α => ∀ a ∈ o, P a) (optional fun a => chars k ++ w a) (Ahead ks) := by
  have begins (a : α) (_ : P a) : Begins [k] (chars k ++ w a) :=
    Begins.word (List.mem_singleton_self k) (w a)
  refine (h.keyword k).option begins fun r hr => ?_
  exact hr.off fun k' mem => by rwa [List.mem_singleton.mp mem]

/-- Items one after the other, each of which begins with one of some words. -/
theorem many (h : Legible P w (Ahead (ks' ++ ks))) (begins : ∀ a, P a → Begins ks' (w a))
    (clear : ∀ k ∈ ks', Clear k ks) :
    Legible (fun l : List α => ∀ a ∈ l, P a) (fun l => l.flatMap w) (Ahead ks) where
  told := by
    have missing {a : α} {r r' : List Symbol} (ha : P a) (hr : Ahead ks r) : r ≠ w a ++ r' :=
      fun same => hr.off clear (same ▸ (begins a ha).append r')
    have follow {l : List α} {r : List Symbol} (hl : ∀ a ∈ l, P a) (hr : Ahead ks r) :
        Ahead (ks' ++ ks) (l.flatMap w ++ r) :=
      hr.flatMap fun a mem => begins a (hl a mem)
    intro l l' r r' hl hl' hr hr' same
    -- On the first list: as long as there is an item in it, a word shows that there is another one
    -- in the second list.
    induction l generalizing l' with
    | nil =>
        cases l' with
        | nil => exact ⟨rfl, same⟩
        | cons b l' =>
            rw [List.flatMap_cons, List.append_assoc] at same
            exact absurd same (missing (hl' b List.mem_cons_self) hr)
    | cons a l ih =>
        have others : ∀ a ∈ l, P a := fun a mem => hl a (List.mem_cons_of_mem _ mem)
        cases l' with
        | nil =>
            rw [List.flatMap_cons, List.append_assoc] at same
            exact absurd same.symm (missing (hl a List.mem_cons_self) hr')
        | cons b l' =>
            have others' : ∀ a ∈ l', P a := fun a mem => hl' a (List.mem_cons_of_mem _ mem)
            rw [List.flatMap_cons, List.flatMap_cons, List.append_assoc, List.append_assoc] at same
            obtain ⟨first, later⟩ := h.told (hl a List.mem_cons_self) (hl' b List.mem_cons_self)
              (follow others hr) (follow others' hr') same
            obtain ⟨behind, rest⟩ := ih others others' later
            exact ⟨by rw [first, behind], rest⟩

/-- A list of items with commas between them. -/
theorem list (h : Legible P w (Ahead (", " :: ks))) (clear : Clear ", " ks) :
    Legible (fun l : List α => l ≠ [] ∧ ∀ a ∈ l, P a) (fun l => commas (l.map w)) (Ahead ks) := by
  have separator (k : String) (mem : k ∈ [", "]) : Clear k ks := by rwa [List.mem_singleton.mp mem]
  have rest := many (h.keyword ", ") (fun a _ => Begins.word List.mem_cons_self (w a)) separator
  refine of (h.pair rest fun l r _ hr => ?_) (fun p => p.1 :: p.2) fun l hl => ?_
  · exact hr.flatMap fun a _ => Begins.word (List.mem_singleton_self ", ") (w a)
  · cases l with
    | nil => exact absurd rfl hl.1
    | cons a l =>
        refine ⟨(a, l), ⟨hl.2 a List.mem_cons_self, fun b mem => hl.2 b (List.mem_cons_of_mem _ mem)⟩,
          rfl, ?_⟩
        simp [commas, List.flatMap_map]

/-- A clause of a list, which is missing when the list is empty. -/
theorem listClause (h : Legible P w (Ahead (", " :: ks))) (separator : Clear ", " ks)
    (clear : Clear k ks) :
    Legible (fun l : List α => ∀ a ∈ l, P a) (fun l => listed k (l.map w)) (Ahead ks) := by
  refine of ((h.list separator).clause clear) (·.getD []) fun l hl => ?_
  cases l with
  | nil => exact ⟨none, fun _ missing => absurd missing (by simp), rfl, rfl⟩
  | cons a l =>
      refine ⟨some (a :: l), fun l' same => ?_, rfl, rfl⟩
      obtain rfl := Option.some.inj same
      exact ⟨by simp, hl⟩

/-- A choice between some kinds of things, where the kind is told from the symbols. -/
theorem choice {κ : Type} {P : κ → α → Prop} (each : ∀ k, Legible (P k) w F)
    (kind : ∀ {k k' a b r r'}, P k a → P k' b → w a ++ r = w b ++ r' → k = k') :
    Legible (fun a => ∃ k, P k a) w F where
  told := by
    rintro a b r r' ⟨k, ha⟩ ⟨k', hb⟩ hr hr' same
    obtain rfl := kind ha hb same
    exact (each k).told ha hb hr hr' same

end Legible

/-! ## Clauses one before the other -/

/-- Clauses that are legible together where one of the words in `base` follows, or nothing. They
begin with one of the words in `ks`, or they are all missing. -/
structure Clauses {α : Type} (P : α → Prop) (w : α → List Symbol) (ks base : List String) : Prop where
  legible : Legible P w (Ahead base)
  ahead : ∀ a r, P a → Ahead base r → Ahead ks (w a ++ r)

namespace Clauses

variable {α β : Type} {P : α → Prop} {Q : β → Prop} {w : α → List Symbol} {v : β → List Symbol}
  {base : List String}

theorem nil (base : List String) : Clauses (fun _ : Unit => True) (fun _ => []) base base where
  legible := ⟨fun _ _ _ _ same => ⟨rfl, same⟩⟩
  ahead _ _ _ hr := hr

/-- Something before some clauses. -/
theorem before (h : Legible P w (Ahead ks)) (clauses : Clauses Q v ks base)
    (ahead : ∀ a r, P a → Ahead ks r → Ahead ks' (w a ++ r)) :
    Clauses (fun p : α × β => P p.1 ∧ Q p.2) (fun p => w p.1 ++ v p.2) ks' base where
  legible := h.pair clauses.legible clauses.ahead
  ahead p r hp hr := by
    rw [List.append_assoc]
    exact ahead p.1 _ hp.1 (clauses.ahead p.2 r hp.2 hr)

theorem clause (clauses : Clauses Q v ks base) (k : String) (h : Legible P w (Ahead ks))
    (clear : Clear k ks) :
    Clauses (fun p : Option α × β => (∀ a ∈ p.1, P a) ∧ Q p.2)
      (fun p => optional (fun a => chars k ++ w a) p.1 ++ v p.2) (k :: ks) base :=
  before (h.clause clear) clauses fun o _ _ hr => hr.clause k o

theorem listClause (clauses : Clauses Q v ks base) (k : String)
    (h : Legible P w (Ahead (", " :: ks))) (separator : Clear ", " ks) (clear : Clear k ks) :
    Clauses (fun p : List α × β => (∀ a ∈ p.1, P a) ∧ Q p.2)
      (fun p => listed k (p.1.map w) ++ v p.2) (k :: ks) base :=
  before (h.listClause separator clear) clauses fun _ _ _ hr => hr.listed k _

theorem many (clauses : Clauses Q v ks base) (words : List String)
    (h : Legible P w (Ahead (words ++ ks))) (begins : ∀ a, P a → Begins words (w a))
    (clear : ∀ k ∈ words, Clear k ks) :
    Clauses (fun p : List α × β => (∀ a ∈ p.1, P a) ∧ Q p.2)
      (fun p => p.1.flatMap w ++ v p.2) (words ++ ks) base :=
  before (h.many begins clear) clauses fun _ _ hl hr => hr.flatMap fun a mem => begins a (hl a mem)

end Clauses

end QueryForest.Sql
