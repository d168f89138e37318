import Mathlib.Data.List.Forall2

set_option autoImplicit false

/-!
# Steps that can fail

What is known of the parts when a sequence of steps that can fail succeeds or fails: the steps of
a `do` block, and one step for each element of a list.
-/

namespace QueryForest.Outcome

variable {α β ε : Type}

theorem bind_ok {x : Except ε α} {g : α → Except ε β} {b : β} (h : (x >>= g) = .ok b) :
    ∃ a, x = .ok a ∧ g a = .ok b := by
  cases x with
  | error => exact absurd h (by simp [bind, Except.bind])
  | ok a => exact ⟨a, rfl, h⟩

theorem bind_error {x : Except ε α} {g : α → Except ε β} {e : ε} (h : (x >>= g) = .error e) :
    x = .error e ∨ ∃ a, x = .ok a ∧ g a = .error e := by
  cases x with
  | error => exact Or.inl (congrArg Except.error (Except.error.inj h))
  | ok a => exact Or.inr ⟨a, rfl, h⟩

theorem toOption_eq_some {x : Except ε α} {a : α} : x.toOption = some a ↔ x = .ok a := by
  cases x with
  | error => exact ⟨nofun, nofun⟩
  | ok b => exact ⟨fun h => congrArg Except.ok (Option.some.inj h), fun h => congrArg some (Except.ok.inj h)⟩

theorem forall₂_mem_left {R : α → β → Prop} {l : List α} {bs : List β} (h : List.Forall₂ R l bs)
    {a : α} (ha : a ∈ l) : ∃ b ∈ bs, R a b := by
  induction h with
  | nil => exact absurd ha List.not_mem_nil
  | cons first _ ih =>
      rcases List.mem_cons.mp ha with rfl | ha
      · exact ⟨_, List.mem_cons_self, first⟩
      · obtain ⟨b, hb, related⟩ := ih ha
        exact ⟨b, List.mem_cons_of_mem _ hb, related⟩

theorem forall₂_mem_right {R : α → β → Prop} {l : List α} {bs : List β} (h : List.Forall₂ R l bs)
    {b : β} (hb : b ∈ bs) : ∃ a ∈ l, R a b :=
  forall₂_mem_left h.flip hb

theorem forall₂_flatMap {γ : Type} {R : α → β → Prop} {l : List α} {bs : List β}
    (h : List.Forall₂ R l bs) {k : α → List γ} {m : β → List γ} (same : ∀ a b, R a b → k a = m b) :
    l.flatMap k = bs.flatMap m := by
  induction h with
  | nil => rfl
  | cons first _ ih => rw [List.flatMap_cons, List.flatMap_cons, same _ _ first, ih]

theorem forall₂_filterMap {γ : Type} {R : α → β → Prop} {l : List α} {bs : List β}
    (h : List.Forall₂ R l bs) {k : α → Option γ} {m : β → Option γ}
    (same : ∀ a b, R a b → k a = m b) : l.filterMap k = bs.filterMap m := by
  induction h with
  | nil => rfl
  | cons first _ ih => simp only [List.filterMap_cons, same _ _ first, ih]

/-- Optional results that are all there are related to what they are results of. -/
theorem forall₂_of_map_some {g : α → Option β} {l : List α} {bs : List β}
    (h : l.map g = bs.map some) : List.Forall₂ (fun a b => g a = some b) l bs := by
  rwa [← List.forall₂_eq_eq_eq, List.forall₂_map_left_iff, List.forall₂_map_right_iff] at h

/-- Where a function has results, they are related to what they are results of. -/
theorem forall₂_filter_isSome (g : α → Option β) (l : List α) :
    List.Forall₂ (fun a b => g a = some b) (l.filter fun a => (g a).isSome) (l.filterMap g) := by
  induction l with
  | nil => exact .nil
  | cons a l ih =>
      rw [List.filter_cons, List.filterMap_cons]
      cases h : g a with
      | none => exact ih
      | some b => exact .cons h ih

/-- Related lists are split in the same place. -/
theorem forall₂_split {R : α → β → Prop} {l : List α} {before after : List β} {b : β}
    (h : List.Forall₂ R l (before ++ b :: after)) : ∃ first a rest, l = first ++ a :: rest ∧
      List.Forall₂ R first before ∧ R a b := by
  induction before generalizing l with
  | nil =>
      obtain ⟨a, rest, related, -, rfl⟩ := List.forall₂_cons_right_iff.mp h
      exact ⟨[], a, rest, rfl, List.Forall₂.nil, related⟩
  | cons b' before ih =>
      obtain ⟨a', l', related, tail, rfl⟩ := List.forall₂_cons_right_iff.mp h
      obtain ⟨first, a, rest, rfl, each, here⟩ := ih tail
      exact ⟨a' :: first, a, rest, rfl, List.Forall₂.cons related each, here⟩

/-- The steps for the elements of a list succeed together just when each of them does. -/
theorem mapM_ok_iff {step : α → Except ε β} {l : List α} {bs : List β} :
    l.mapM step = .ok bs ↔ List.Forall₂ (fun a b => step a = .ok b) l bs := by
  induction l generalizing bs with
  | nil =>
      rw [List.mapM_nil, List.forall₂_nil_left_iff]
      exact ⟨fun h => (Except.ok.inj h).symm, fun h => h ▸ rfl⟩
  | cons a l ih =>
      rw [List.mapM_cons, List.forall₂_cons_left_iff]
      constructor
      · intro h
        obtain ⟨b, hb, rest⟩ := bind_ok h
        obtain ⟨bs', hbs, made⟩ := bind_ok rest
        exact ⟨b, bs', hb, ih.mp hbs, (Except.ok.inj made).symm⟩
      · rintro ⟨b, bs', hb, rest, rfl⟩
        rw [hb, ih.mpr rest]
        rfl

theorem exists_mapM_ok {step : α → Except ε β} {l : List α} :
    (∃ bs, l.mapM step = .ok bs) ↔ ∀ a ∈ l, ∃ b, step a = .ok b := by
  constructor
  · rintro ⟨bs, h⟩ a ha
    obtain ⟨b, -, hb⟩ := forall₂_mem_left (mapM_ok_iff.mp h) ha
    exact ⟨b, hb⟩
  · intro each
    induction l with
    | nil => exact ⟨[], rfl⟩
    | cons a l ih =>
        obtain ⟨b, hb⟩ := each a List.mem_cons_self
        obtain ⟨bs, hbs⟩ := ih fun a ha => each a (List.mem_cons_of_mem _ ha)
        exact ⟨b :: bs, mapM_ok_iff.mpr (List.Forall₂.cons hb (mapM_ok_iff.mp hbs))⟩

/-- Steps that succeed have each given something. -/
theorem mapM_toOption {step : α → Except ε β} {l : List α} {bs : List β}
    (h : l.mapM step = .ok bs) : l.map (fun a => (step a).toOption) = bs.map some := by
  rw [← List.forall₂_eq_eq_eq, List.forall₂_map_left_iff, List.forall₂_map_right_iff]
  exact (mapM_ok_iff.mp h).imp fun a b made => congrArg Except.toOption made

/-- When the steps for a list fail, one of them fails in the same way. -/
theorem mapM_error {step : α → Except ε β} {l : List α} {e : ε} (h : l.mapM step = .error e) :
    ∃ a ∈ l, step a = .error e := by
  induction l with
  | nil => exact absurd h (by simp [pure, Except.pure])
  | cons a l ih =>
      rw [List.mapM_cons] at h
      rcases bind_error h with first | ⟨b, -, rest⟩
      · exact ⟨a, List.mem_cons_self, first⟩
      · rcases bind_error rest with rest | ⟨bs, -, made⟩
        · obtain ⟨c, hc, failed⟩ := ih rest
          exact ⟨c, List.mem_cons_of_mem _ hc, failed⟩
        · exact absurd made (by simp [pure, Except.pure])

theorem mapM_congr {step step' : α → Except ε β} {l : List α}
    (same : ∀ a ∈ l, step a = step' a) : l.mapM step = l.mapM step' := by
  induction l with
  | nil => rfl
  | cons a l ih =>
      rw [List.mapM_cons, List.mapM_cons, same a List.mem_cons_self,
        ih fun a ha => same a (List.mem_cons_of_mem _ ha)]

/-! ## Results seen through a function -/

section Through

variable {α' β' : Type} {m : α → α'} {k : β → β'}

/-- Two steps in succession look alike when each of them does. -/
theorem bind_map {x : Except ε α} {x' : Except ε α'} {g : α → Except ε β} {g' : α' → Except ε β'}
    (first : x' = x.map m) (next : ∀ a, g' (m a) = (g a).map k) :
    (x' >>= g') = (x >>= g).map k := by
  subst first
  cases x with
  | error e => rfl
  | ok a => exact next a

/-- Results that look alike are the same error, or they succeed alike. -/
theorem map_eq_map {x y : Except ε α} (same : x.map m = y.map m) :
    (∃ e, x = .error e ∧ y = .error e) ∨ ∃ a b, x = .ok a ∧ y = .ok b ∧ m a = m b := by
  cases x with
  | error e =>
      cases y with
      | error e' => exact Or.inl ⟨e, rfl, congrArg _ (Except.error.inj same).symm⟩
      | ok b => exact absurd same (by simp [Except.map])
  | ok a =>
      cases y with
      | error e' => exact absurd same (by simp [Except.map])
      | ok b => exact Or.inr ⟨a, b, rfl, rfl, Except.ok.inj same⟩

theorem mapM_map {step : α → Except ε β} {step' : α' → Except ε β'} {l : List α}
    (each : ∀ a ∈ l, step' (m a) = (step a).map k) :
    (l.map m).mapM step' = (l.mapM step).map (List.map k) := by
  induction l with
  | nil => rfl
  | cons a l ih =>
      rw [List.map_cons, List.mapM_cons, List.mapM_cons]
      refine bind_map (each a List.mem_cons_self) fun b => ?_
      exact bind_map (ih fun a ha => each a (List.mem_cons_of_mem _ ha)) fun _ => rfl

end Through

end QueryForest.Outcome
