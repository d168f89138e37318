import QueryForest.Value.Order
import QueryForest.Proofs.Number.Rounding

set_option autoImplicit false

/-!
# The order of values

Values that have an order are of one kind, or they are both numbers (`Compared`). Numbers are ordered by
their places among the floating point numbers, and only integers are told apart at one place. All orders of
one kind are transitive. The order of numbers is so as well, except for the triples in which a floating
point number hides the difference of two integers (`Blurred`).
-/

namespace QueryForest

instance : Std.TransCmp Date.order :=
  inferInstanceAs (Std.TransCmp
    (compareLex (compareOn Date.year) (compareLex (compareOn Date.month) (compareOn Date.day))))

instance : Std.TransCmp Timestamp.order :=
  inferInstanceAs (Std.TransCmp (compareLex (compareOn Timestamp.seconds) (compareOn Timestamp.nanos)))

namespace Value

/-! ## Numbers -/

/-- A number, and its place among the floating point numbers. -/
inductive Placed : Value → Int → Prop
  | int (n : Int64) : Placed (int n) (Binary64.ofInt n.toInt).place
  | float {x : Binary64} (number : x.isNaN = false) : Placed (float x) x.place

theorem Placed.unique {a : Value} {x y : Int} (hx : Placed a x) (hy : Placed a y) : x = y := by
  cases hx <;> cases hy <;> rfl

/-- The order of two numbers at one place. -/
def tie : Value → Value → Ordering
  | int m, int n => compare m.toInt n.toInt
  | _, _ => .eq

/-- Integers are in the order of their places, and where these are the same in their own. -/
theorem compare_eq_then (m n : Int) :
    compare m n = (compare (Binary64.ofInt m).place (Binary64.ofInt n).place).then (compare m n) := by
  rcases Int.lt_trichotomy m n with less | rfl | greater
  · have order := Int.compare_eq_lt.mpr less
    rcases Int.lt_or_eq_of_le (Binary64.place_ofInt_mono (Int.le_of_lt less)) with apart | same
    · rw [order, Int.compare_eq_lt.mpr apart]
      rfl
    · rw [order, Int.compare_eq_eq.mpr same]
      rfl
  · rw [Int.compare_eq_eq.mpr rfl, Int.compare_eq_eq.mpr rfl]
    rfl
  · have order := Int.compare_eq_gt.mpr greater
    rcases Int.lt_or_eq_of_le (Binary64.place_ofInt_mono (Int.le_of_lt greater)) with apart | same
    · rw [order, Int.compare_eq_gt.mpr apart]
      rfl
    · rw [order, Int.compare_eq_eq.mpr same.symm]
      rfl

theorem Placed.compare? {a b : Value} {x y : Int} (ha : Placed a x) (hb : Placed b y) :
    a.compare? b = some ((compare x y).then (a.tie b)) := by
  cases ha with
  | int m =>
      cases hb with
      | int n => exact congrArg some (compare_eq_then m.toInt n.toInt)
      | float number => simp [Value.compare?, Binary64.compare?, Binary64.isNaN_ofInt, number, tie]
  | float number =>
      cases hb with
      | int n => simp [Value.compare?, Binary64.compare?, Binary64.isNaN_ofInt, number, tie]
      | float number' => simp [Value.compare?, Binary64.compare?, number, number', tie]

/-! ## The values that have an order -/

/-- Two values that have an order, with the order that they have. -/
inductive Compared : Value → Value → Ordering → Prop
  | number {a b : Value} {x y : Int} (ha : Placed a x) (hb : Placed b y) :
      Compared a b ((compare x y).then (a.tie b))
  | uint (m n : UInt64) : Compared (uint m) (uint n) (compare m.toNat n.toNat)
  | string (s t : String) : Compared (string s) (string t) (compare s t)
  | boolean (b c : Bool) : Compared (boolean b) (boolean c) (compare b c)
  | date (d e : Date) : Compared (date d) (date e) (d.order e)
  | timestamp (t u : Timestamp) : Compared (timestamp t) (timestamp u) (t.order u)

theorem compare?_eq_some_iff {a b : Value} {o : Ordering} : a.compare? b = some o ↔ Compared a b o := by
  constructor
  · intro compared
    fun_cases Value.compare? a b with
    | case1 m n =>
        obtain rfl := Option.some.inj compared
        rw [compare_eq_then]
        exact .number (.int m) (.int n)
    | case2 m n =>
        obtain rfl := Option.some.inj compared
        exact .uint m n
    | case3 x y =>
        obtain ⟨number, number', rfl⟩ := Binary64.compare?_eq_some_iff.mp compared
        rw [← @Ordering.then_eq (compare x.place y.place)]
        exact .number (.float number) (.float number')
    | case4 m y =>
        obtain ⟨-, number, rfl⟩ := Binary64.compare?_eq_some_iff.mp compared
        rw [← @Ordering.then_eq (compare _ y.place)]
        exact .number (.int m) (.float number)
    | case5 x n =>
        obtain ⟨number, -, rfl⟩ := Binary64.compare?_eq_some_iff.mp compared
        rw [← @Ordering.then_eq (compare x.place _)]
        exact .number (.float number) (.int n)
    | case6 s t =>
        obtain rfl := Option.some.inj compared
        exact .string s t
    | case7 b c =>
        obtain rfl := Option.some.inj compared
        exact .boolean b c
    | case8 d e =>
        obtain rfl := Option.some.inj compared
        exact .date d e
    | case9 t u =>
        obtain rfl := Option.some.inj compared
        exact .timestamp t u
    | case10 => simp [Value.compare?, *] at compared
  · intro compared
    cases compared with
    | number ha hb => exact ha.compare? hb
    | uint | string | boolean | date | timestamp => rfl

theorem tie_swap (a b : Value) : (a.tie b).swap = b.tie a := by
  fun_cases Value.tie a b with
  | case1 m n => exact Int.compare_swap m.toInt n.toInt
  | case2 =>
      unfold tie
      split <;> simp_all

/-- **The order of two values is reversed with them.** -/
theorem Compared.swap {a b : Value} {o : Ordering} (compared : Compared a b o) : Compared b a o.swap := by
  cases compared with
  | @number a b x y ha hb =>
      rw [Ordering.swap_then, Int.compare_swap, tie_swap]
      exact .number hb ha
  | uint m n =>
      rw [Nat.compare_swap]
      exact .uint n m
  | string s t =>
      rw [← Std.OrientedOrd.eq_swap]
      exact .string t s
  | boolean b c =>
      rw [← Std.OrientedOrd.eq_swap]
      exact .boolean c b
  | date d e =>
      rw [← @Std.OrientedCmp.eq_swap Date Date.order]
      exact .date e d
  | timestamp t u =>
      rw [← @Std.OrientedCmp.eq_swap Timestamp Timestamp.order]
      exact .timestamp u t

theorem compare?_swap (a b : Value) : b.compare? a = (a.compare? b).map Ordering.swap := by
  refine Option.ext fun o => ?_
  rw [Option.map_eq_some_iff, compare?_eq_some_iff]
  constructor
  · intro compared
    exact ⟨o.swap, compare?_eq_some_iff.mpr compared.swap, Ordering.swap_swap⟩
  · rintro ⟨p, compared, rfl⟩
    exact (compare?_eq_some_iff.mp compared).swap

/-! ## Chains -/

/-- What a transitive order makes of three things in ascending order. -/
theorem chain_of_transCmp {α : Type} {cmp : α → α → Ordering} [Std.TransCmp cmp] {x y z : α}
    (hxy : cmp x y ≠ .gt) (hyz : cmp y z ≠ .gt) :
    cmp x z ≠ .gt ∧ (cmp x z = .eq → cmp x y = .eq ∧ cmp y z = .eq) := by
  have upward : (cmp x y).isLE := Ordering.isLE_iff_ne_gt.mpr hxy
  have upward' : (cmp y z).isLE := Ordering.isLE_iff_ne_gt.mpr hyz
  refine ⟨Ordering.isLE_iff_ne_gt.mp (Std.TransCmp.isLE_trans upward upward'), fun same => ?_⟩
  have back : (cmp z x).isLE := Ordering.isLE_of_eq_eq (Std.OrientedCmp.eq_symm same)
  exact ⟨Std.OrientedCmp.isLE_antisymm upward (Std.TransCmp.isLE_trans upward' back),
    Std.OrientedCmp.isLE_antisymm upward' (Std.TransCmp.isLE_trans back upward)⟩

/-- Two integers that are rounded to the same floating point number. -/
def RoundTo (x : Binary64) (m n : Int64) : Prop :=
  (Binary64.ofInt m.toInt).equals x ∧ (Binary64.ofInt n.toInt).equals x

/-- Two different integers next to the floating point number that both are rounded to: the integers ascend
side by side, or they descend around the floating point number. -/
def Blurred : Value → Value → Value → Prop
  | int m, int n, float x => m.toInt < n.toInt ∧ RoundTo x m n
  | float x, int m, int n => m.toInt < n.toInt ∧ RoundTo x m n
  | int m, float x, int n => n.toInt < m.toInt ∧ RoundTo x m n
  | _, _, _ => False

theorem roundTo_iff {x : Binary64} {m n : Int64} :
    RoundTo x m n ↔ x.isNaN = false ∧
      (Binary64.ofInt m.toInt).place = x.place ∧ (Binary64.ofInt n.toInt).place = x.place := by
  unfold RoundTo
  rw [Binary64.equals_iff, Binary64.equals_iff, Binary64.isNaN_ofInt, Binary64.isNaN_ofInt]
  tauto

/-- **Only integers past `2 ^ 53` are rounded to one number.** -/
theorem RoundTo.large {x : Binary64} {m n : Int64} (rounded : RoundTo x m n) (differ : m.toInt ≠ n.toInt) :
    2 ^ 53 < m.toInt.natAbs ∨ 2 ^ 53 < n.toInt.natAbs := by
  obtain ⟨-, hm, hn⟩ := roundTo_iff.mp rounded
  by_contra small
  rcases Int.lt_or_gt_of_ne differ with less | greater
  · have apart := Binary64.place_ofInt_lt less (by omega) (by omega)
    omega
  · have apart := Binary64.place_ofInt_lt greater (by omega) (by omega)
    omega

variable {a b c : Value} {x y z : Int} {o p : Ordering}

theorem Blurred.large (blurred : Blurred a b c) :
    ∃ n : Int64, (a = int n ∨ b = int n ∨ c = int n) ∧ 2 ^ 53 < n.toInt.natAbs := by
  fun_cases Blurred a b c with
  | case1 m n x =>
      rcases blurred.2.large (Int.ne_of_lt blurred.1) with large | large
      · exact ⟨m, Or.inl rfl, large⟩
      · exact ⟨n, Or.inr (Or.inl rfl), large⟩
  | case2 x m n =>
      rcases blurred.2.large (Int.ne_of_lt blurred.1) with large | large
      · exact ⟨m, Or.inr (Or.inl rfl), large⟩
      · exact ⟨n, Or.inr (Or.inr rfl), large⟩
  | case3 m x n =>
      rcases blurred.2.large (Int.ne_of_gt blurred.1) with large | large
      · exact ⟨m, Or.inl rfl, large⟩
      · exact ⟨n, Or.inr (Or.inr rfl), large⟩
  | case4 => simp [Blurred, *] at blurred

/-- Three numbers at one place are a chain, unless they are blurred. -/
theorem tie_chain (ha : Placed a x) (hb : Placed b y) (hc : Placed c z) (hxy : x = y) (hyz : y = z)
    (no : a.tie b ≠ .gt) (np : b.tie c ≠ .gt) :
    (a.tie c ≠ .gt ∧ (a.tie c = .eq → a.tie b = .eq ∧ b.tie c = .eq)) ↔ ¬ Blurred a b c := by
  have unequal {m n : Int} (ascending : compare m n ≠ .gt) : compare m n = .eq ↔ ¬ m < n := by
    have le := Int.compare_ne_gt.mp ascending
    rw [Int.compare_eq_eq]
    omega
  -- A floating point number is equal to both its neighbours here, so what matters is the order of the
  -- integers of the triple.
  cases ha with
  | int m =>
      cases hb with
      | int n =>
          cases hc with
          | int k => exact iff_of_true (@chain_of_transCmp Int compare _ m.toInt n.toInt k.toInt no np) id
          | float number =>
              have rounded := roundTo_iff.mpr ⟨number, hxy.trans hyz, hyz⟩
              simp [tie, Blurred, rounded, unequal no]
      | float number =>
          cases hc with
          | int n =>
              have rounded := roundTo_iff.mpr ⟨number, hxy, hyz.symm⟩
              simp [tie, Blurred, rounded, Int.compare_ne_gt]
          | float => simp [tie, Blurred]
  | float number =>
      cases hb with
      | int m =>
          cases hc with
          | int n =>
              have rounded := roundTo_iff.mpr ⟨number, hxy.symm, (hxy.trans hyz).symm⟩
              simp [tie, Blurred, rounded, unequal np]
          | float => simp [tie, Blurred]
      | float => cases hc <;> simp [tie, Blurred]

/-- The numbers of a blurred triple are at one place. -/
theorem Blurred.places (ha : Placed a x) (hb : Placed b y) (hc : Placed c z) (blurred : Blurred a b c) :
    x = z := by
  cases ha with
  | int =>
      cases hb with
      | int =>
          cases hc with
          | int => contradiction
          | float => exact (roundTo_iff.mp blurred.2).2.1
      | float =>
          cases hc with
          | int =>
              obtain ⟨-, hm, hn⟩ := roundTo_iff.mp blurred.2
              exact hm.trans hn.symm
          | float => contradiction
  | float =>
      cases hb with
      | int =>
          cases hc with
          | int => exact (roundTo_iff.mp blurred.2).2.2.symm
          | float => contradiction
      | float => cases hc <;> contradiction

theorem le_of_then_ne_gt {t : Ordering} (ascending : (compare x y).then t ≠ .gt) : x ≤ y :=
  Int.compare_ne_gt.mp fun descending => ascending (Ordering.then_eq_gt.mpr (Or.inl descending))

/-- Three numbers in ascending order are a chain, unless they are blurred. -/
theorem Placed.chain (ha : Placed a x) (hb : Placed b y) (hc : Placed c z)
    (no : (compare x y).then (a.tie b) ≠ .gt) (np : (compare y z).then (b.tie c) ≠ .gt) :
    ((compare x z).then (a.tie c) ≠ .gt ∧ ((compare x z).then (a.tie c) = .eq →
      (compare x y).then (a.tie b) = .eq ∧ (compare y z).then (b.tie c) = .eq)) ↔ ¬ Blurred a b c := by
  have hxy := le_of_then_ne_gt no
  have hyz := le_of_then_ne_gt np
  rcases Int.lt_or_eq_of_le (Int.le_trans hxy hyz) with less | same
  · have clear : ¬ Blurred a b c := fun blurred => Int.ne_of_lt less (blurred.places ha hb hc)
    rw [Int.compare_eq_lt.mpr less]
    exact iff_of_true ⟨by simp, by simp⟩ clear
  · have hab : compare x y = .eq := Int.compare_eq_eq.mpr (by omega)
    have hbc : compare y z = .eq := Int.compare_eq_eq.mpr (by omega)
    rw [hab] at no
    rw [hbc] at np
    rw [hab, hbc, Int.compare_eq_eq.mpr same]
    exact tie_chain ha hb hc (by omega) (by omega) no np

/-- Three values in ascending order are a chain, unless they are blurred. -/
theorem Compared.chain (hab : Compared a b o) (hbc : Compared b c p) (no : o ≠ .gt) (np : p ≠ .gt) :
    ∃ q, Compared a c q ∧ ((q ≠ .gt ∧ (q = .eq → o = .eq ∧ p = .eq)) ↔ ¬ Blurred a b c) := by
  cases hab with
  | number ha hb =>
      cases hbc with
      | number hb' hc =>
          obtain rfl := hb.unique hb'
          exact ⟨_, .number ha hc, ha.chain hb hc no np⟩
      | uint | string | boolean | date | timestamp => nomatch hb
  | uint m n =>
      cases hbc with
      | number hb => nomatch hb
      | uint _ k => exact ⟨_, .uint m k, iff_of_true (chain_of_transCmp no np) id⟩
  | string s t =>
      cases hbc with
      | number hb => nomatch hb
      | string _ u => exact ⟨_, .string s u, iff_of_true (chain_of_transCmp no np) id⟩
  | boolean d e =>
      cases hbc with
      | number hb => nomatch hb
      | boolean _ f => exact ⟨_, .boolean d f, iff_of_true (chain_of_transCmp no np) id⟩
  | date d e =>
      cases hbc with
      | number hb => nomatch hb
      | date _ f => exact ⟨_, .date d f, iff_of_true (chain_of_transCmp no np) id⟩
  | timestamp t u =>
      cases hbc with
      | number hb => nomatch hb
      | timestamp _ v => exact ⟨_, .timestamp t v, iff_of_true (chain_of_transCmp no np) id⟩

/-- **The order of values.** Two values are ordered one way as they are ordered the other way, or have no
order either way. Values in ascending order are a chain: the first has an order with the last, it is not
behind it, and it is equal only if all are. The only exceptions are the blurred triples, and these have an
integer past `2 ^ 53`. -/
theorem compare_consistent :
    (∀ a b : Value, b.compare? a = (a.compare? b).map Ordering.swap) ∧
      (∀ (a b c : Value) (o p : Ordering),
        a.compare? b = some o → b.compare? c = some p → o ≠ .gt → p ≠ .gt →
          ∃ q, a.compare? c = some q ∧
            ((q ≠ .gt ∧ (q = .eq → o = .eq ∧ p = .eq)) ↔ ¬ Blurred a b c)) ∧
      ∀ a b c : Value, Blurred a b c →
        ∃ n : Int64, (a = int n ∨ b = int n ∨ c = int n) ∧ 2 ^ 53 < n.toInt.natAbs := by
  refine ⟨compare?_swap, ?_, fun a b c => Blurred.large⟩
  intro a b c o p hab hbc no np
  obtain ⟨q, compared, chain⟩ :=
    (compare?_eq_some_iff.mp hab).chain (compare?_eq_some_iff.mp hbc) no np
  exact ⟨q, compare?_eq_some_iff.mpr compared, chain⟩

/-- One, one and a half and two are a chain, and the two integers around the number `2 ^ 53` are blurred. -/
theorem compare_consistent_numbers :
    (∃ q, (int 1).compare? (int 2) = some q ∧
      ((q ≠ .gt ∧ (q = .eq → Ordering.lt = .eq ∧ Ordering.lt = .eq)) ↔
        ¬ Blurred (int 1) (float ⟨0x3ff8000000000000⟩) (int 2))) ∧
      ∃ n : Int64, (int 9007199254740993 = int n ∨ float ⟨0x4340000000000000⟩ = int n ∨
        int 9007199254740992 = int n) ∧ 2 ^ 53 < n.toInt.natAbs := by
  have up : (int 1).compare? (float ⟨0x3ff8000000000000⟩) = some .lt := by decide +kernel
  have up' : (float ⟨0x3ff8000000000000⟩).compare? (int 2) = some .lt := by decide +kernel
  have blurred : Blurred (int 9007199254740993) (float ⟨0x4340000000000000⟩) (int 9007199254740992) :=
    ⟨by decide, by decide +kernel, by decide +kernel⟩
  exact ⟨compare_consistent.2.1 _ _ _ _ _ up up' (by decide) (by decide),
    compare_consistent.2.2 _ _ _ blurred⟩

/-- The integer after `2 ^ 53` equals the number `2 ^ 53`, which equals the integer `2 ^ 53`: the order of
values is not transitive. -/
theorem compare_not_transitive :
    (int 9007199254740993).compare? (float ⟨0x4340000000000000⟩) = some .eq ∧
      (float ⟨0x4340000000000000⟩).compare? (int 9007199254740992) = some .eq ∧
      (int 9007199254740993).compare? (int 9007199254740992) = some .gt ∧
      ¬ ∀ (a b c : Value) (o p : Ordering),
        a.compare? b = some o → b.compare? c = some p → o ≠ .gt → p ≠ .gt →
          ∃ q, a.compare? c = some q ∧ q ≠ .gt ∧ (q = .eq → o = .eq ∧ p = .eq) := by
  have same : (int 9007199254740993).compare? (float ⟨0x4340000000000000⟩) = some .eq := by decide +kernel
  have same' : (float ⟨0x4340000000000000⟩).compare? (int 9007199254740992) = some .eq := by
    decide +kernel
  have behind : (int 9007199254740993).compare? (int 9007199254740992) = some .gt := by decide +kernel
  refine ⟨same, same', behind, fun transitive => ?_⟩
  obtain ⟨q, found, ascending, -⟩ := transitive _ _ _ _ _ same same' (by decide) (by decide)
  rw [behind] at found
  exact ascending (Option.some.inj found).symm

end Value

end QueryForest
