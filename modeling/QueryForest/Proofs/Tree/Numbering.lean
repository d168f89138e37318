import QueryForest.Proofs.Tree.Derivation

set_option autoImplicit false

/-!
# The aliases that a table gives out

A derived alias is looked for number by number: the number that is next with the letter is counted, and
its alias is given out unless it is taken. This search always ends, in one way only, and with what `next`
gives (`finds_next`, `Finds.unique`).

Whatever else is asked of a table, the aliases that it has given out have numbers below the counters of
their letters (`Supply.Counted`), and a search begins at the counter. So a table never gives out an alias
twice, whatever the entities are that share the letter (`next_run`).
-/

namespace QueryForest.AliasTable

variable {t u : AliasTable} {letter : Char} {aliasName : String}

/-! ## Counters -/

theorem counter_setCounter_self (t : AliasTable) (letter : Char) (n : Nat) :
    (t.setCounter letter n).counter letter = n := by
  simp [counter, setCounter]

theorem counter_setCounter_of_ne {other : Char} (h : other ≠ letter) (t : AliasTable) (n : Nat) :
    (t.setCounter letter n).counter other = t.counter other := by
  unfold counter setCounter
  rw [List.lookup_cons, beq_false_of_ne h]
  -- Of the other entries only those of the same letter are left out.
  have kept (entries : List (Char × Nat)) :
      (entries.filter (·.1 ≠ letter)).lookup other = entries.lookup other := by
    induction entries with
    | nil => rfl
    | cons entry rest ih =>
        by_cases here : entry.1 = letter
        · have apart : (other == entry.1) = false := beq_false_of_ne (here ▸ h)
          rw [List.filter_cons_of_neg (by simpa using here), ih, List.lookup_cons, apart]
        · rw [List.filter_cons_of_pos (by simpa using here), List.lookup_cons, List.lookup_cons, ih]
  exact congrArg (Option.getD · 0) (kept t.counters)

theorem setCounter_setCounter (t : AliasTable) (letter : Char) (n m : Nat) :
    (t.setCounter letter n).setCounter letter m = t.setCounter letter m := by
  simp [setCounter]

/-- Counters never go back. -/
theorem counter_le_next (t : AliasTable) (entityName : String) (letter : Char) :
    t.counter letter ≤ (t.next entityName).2.counter letter := by
  have least := (t.nextNumber_least (token entityName)).1
  unfold next
  by_cases same : letter = token entityName
  · subst same
    rw [counter_setCounter_self]
    omega
  · exact Nat.le_of_eq (counter_setCounter_of_ne same t _).symm

/-! ## The search number by number -/

/-- Whether the search for an alias with a letter comes to an end: the alias that it finds, and the
table that it leaves behind. -/
inductive Finds (letter : Char) : AliasTable → String → AliasTable → Prop
  | free {t : AliasTable} (free : t.isTaken (numbered letter (t.counter letter)) = false) :
      Finds letter t (numbered letter (t.counter letter)) (t.setCounter letter (t.counter letter + 1))
  | taken {t u : AliasTable} {aliasName : String}
      (taken : t.isTaken (numbered letter (t.counter letter)) = true)
      (rest : Finds letter (t.setCounter letter (t.counter letter + 1)) aliasName u) :
      Finds letter t aliasName u

/-- The search has one outcome. -/
theorem Finds.unique (h : Finds letter t aliasName u) {aliasName' : String} {u' : AliasTable}
    (h' : Finds letter t aliasName' u') : aliasName' = aliasName ∧ u' = u := by
  induction h with
  | free free =>
      cases h' with
      | free => exact ⟨rfl, rfl⟩
      | taken taken => exact absurd (free.symm.trans taken) Bool.false_ne_true
  | taken taken _ ih =>
      cases h' with
      | free free => exact absurd (free.symm.trans taken) Bool.false_ne_true
      | taken _ rest => exact ih rest

/-- The search finds the first free number from the counter on. -/
theorem Finds.of_least {k : Nat} (least : t.counter letter ≤ k)
    (free : t.isTaken (numbered letter k) = false)
    (before : ∀ n, t.counter letter ≤ n → n < k → t.isTaken (numbered letter n) = true) :
    Finds letter t (numbered letter k) (t.setCounter letter (k + 1)) := by
  obtain ⟨gap, distance⟩ := Nat.exists_eq_add_of_le least
  -- By induction on the distance from the counter, which each number that is tried makes smaller.
  induction gap generalizing t with
  | zero =>
      obtain rfl : k = t.counter letter := distance
      exact .free free
  | succ gap ih =>
      have less : t.counter letter < k := by omega
      have counted := t.counter_setCounter_self letter (t.counter letter + 1)
      refine .taken (before _ (Nat.le_refl _) less) ?_
      rw [← t.setCounter_setCounter letter (t.counter letter + 1) (k + 1)]
      exact ih (by omega) free (fun n least less => before n (by omega) less) (by omega)

/-- **The search ends with what `next` gives.** -/
theorem finds_next (t : AliasTable) (entityName : String) :
    Finds (token entityName) t (t.next entityName).1 (t.next entityName).2 := by
  obtain ⟨least, free, before⟩ := t.nextNumber_least (token entityName)
  exact .of_least least free before

/-! ## Requests -/

/-- What can be asked of a table. -/
inductive Request where
  | reserve (names : List String)
  | register (aliasName : String) (node : NodeId)
  | allocate (entityName : String) (explicit : Option String) (node : NodeId)
  | next (entityName : String)

/-- A table, with the aliases that it has given out so far. -/
structure Supply where
  table : AliasTable := empty
  given : List String := []

namespace Supply

/-- A table that begins with a root. The alias of the root is given out if it is derived. -/
def ofRoot (entityName : String) (explicit : Option String) (reserved : List String) (root : NodeId) :
    Supply :=
  let (aliasName, table) := forRoot entityName explicit reserved root
  ⟨table, if explicit.isNone then [aliasName] else []⟩

/-- How a table begins: without any names, or with a root. -/
inductive Start where
  | bare
  | root (entityName : String) (explicit : Option String) (reserved : List String) (node : NodeId)

/-- The table at its beginning. -/
def Start.supply : Start → Supply
  | .bare => {}
  | .root entityName explicit reserved node => .ofRoot entityName explicit reserved node

/-- The table after a request. One that is refused leaves it as it was. -/
def serve (s : Supply) : Request → Supply
  | .reserve names => { s with table := s.table.reserve names }
  | .register aliasName node => { s with table := (s.table.register aliasName node).toOption.getD s.table }
  | .allocate entityName explicit node =>
    match s.table.allocate entityName explicit node with
    | .ok (aliasName, table) => ⟨table, if explicit.isNone then s.given ++ [aliasName] else s.given⟩
    | .error _ => s
  | .next entityName =>
    let (aliasName, table) := s.table.next entityName
    ⟨table, s.given ++ [aliasName]⟩

/-- The table after some requests. -/
def run (s : Supply) (requests : List Request) : Supply := requests.foldl serve s

/-- Whether the aliases that a table has given out have numbers below the counters of their letters. -/
def Counted (s : Supply) : Prop :=
  ∀ aliasName ∈ s.given, ∃ letter n, aliasName = numbered letter n ∧ n < s.table.counter letter

variable {s : Supply}

namespace Counted

theorem empty : Counted {} := fun _ mem => absurd mem List.not_mem_nil

/-- One more alias is given out, and counted. -/
theorem next (h : s.Counted) {entityName : String} {table : AliasTable}
    (counters : table.counters = (s.table.next entityName).2.counters) :
    Counted ⟨table, s.given ++ [(s.table.next entityName).1]⟩ := by
  have counter (letter : Char) : table.counter letter = (s.table.next entityName).2.counter letter := by
    rw [counter, counters, counter]
  intro aliasName mem
  rcases List.mem_append.mp mem with old | new
  · obtain ⟨letter, n, rfl, less⟩ := h aliasName old
    refine ⟨letter, n, rfl, ?_⟩
    rw [counter]
    exact Nat.lt_of_lt_of_le less (s.table.counter_le_next entityName letter)
  · obtain rfl := List.mem_singleton.mp new
    refine ⟨token entityName, s.table.nextNumber (token entityName), rfl, ?_⟩
    rw [counter]
    exact Nat.lt_of_lt_of_eq (Nat.lt_succ_self _) (counter_setCounter_self _ _ _).symm

theorem congr (h : s.Counted) {table : AliasTable} (counters : table.counters = s.table.counters) :
    Counted ⟨table, s.given⟩ := by
  intro aliasName mem
  obtain ⟨letter, n, same, less⟩ := h aliasName mem
  exact ⟨letter, n, same, by rwa [counter, counters]⟩

theorem ofRoot (entityName : String) (explicit : Option String) (reserved : List String)
    (root : NodeId) : (Supply.ofRoot entityName explicit reserved root).Counted := by
  cases explicit with
  | some aliasName => exact fun _ mem => absurd mem List.not_mem_nil
  | none => exact @Counted.next ⟨AliasTable.empty.reserve reserved, []⟩ nofun entityName _ rfl

theorem serve (h : s.Counted) (request : Request) : (s.serve request).Counted := by
  cases request with
  | reserve names => exact h.congr rfl
  | register aliasName node =>
      refine h.congr ?_
      cases registered : s.table.register aliasName node with
      | error e => rfl
      | ok table =>
          obtain ⟨-, rfl⟩ := register_ok registered
          rfl
  | allocate entityName explicit node =>
      cases explicit with
      | none =>
          simp only [Supply.serve, allocate_next]
          exact h.next rfl
      | some aliasName =>
          simp only [Supply.serve, allocate]
          cases registered : s.table.register aliasName node with
          | error e => exact h
          | ok table =>
              obtain ⟨-, rfl⟩ := register_ok registered
              exact h.congr rfl
  | next entityName => exact h.next rfl

theorem run (h : s.Counted) (requests : List Request) : (s.run requests).Counted := by
  induction requests generalizing s with
  | nil => exact h
  | cons request rest ih => exact ih (h.serve request)

/-- What is given out next was not given out before. -/
theorem not_mem_given (h : s.Counted) (entityName : String) :
    (s.table.next entityName).1 ∉ s.given := by
  intro mem
  obtain ⟨letter, n, same, less⟩ := h _ mem
  -- The letter and the number are read off the alias, but the search has not tried the number.
  obtain ⟨rfl, rfl⟩ := numbered_inj.mp same
  have least := (s.table.nextNumber_least (token entityName)).1
  omega

end Counted

/-! ## The next alias -/

/-- What is known of the alias that a table gives out next. -/
structure Supplies (s : Supply) (entityName : String) : Prop where
  /-- The search for it comes to an end. -/
  ends : Finds (token entityName) s.table (s.table.next entityName).1 (s.table.next entityName).2
  /-- The search does not come to any other end. -/
  once : ∀ aliasName u, Finds (token entityName) s.table aliasName u →
    aliasName = (s.table.next entityName).1 ∧ u = (s.table.next entityName).2
  /-- It has the least number from the counter on whose alias is neither in use nor reserved. -/
  least : ∃ k, (s.table.next entityName).1 = numbered (token entityName) k ∧
    s.table.counter (token entityName) ≤ k ∧
    numbered (token entityName) k ∉ s.table.names ∧ numbered (token entityName) k ∉ s.table.reserved ∧
    ∀ n, s.table.counter (token entityName) ≤ n → n < k →
      numbered (token entityName) n ∈ s.table.names ∨ numbered (token entityName) n ∈ s.table.reserved
  /-- It was not given out before, for this entity or another one. -/
  new : (s.table.next entityName).1 ∉ s.given
  /-- A node that asks for it gets it. -/
  allocates : ∀ node, ∃ table,
    s.table.allocate entityName none node = .ok ((s.table.next entityName).1, table)

/-- **However a table has begun, and whatever was asked of it, the search for the next alias ends with
the least free number of its letter, and the alias was never given out before.** -/
theorem next_run (start : Start) (requests : List Request) (entityName : String) :
    (start.supply.run requests).Supplies entityName := by
  have begun : start.supply.Counted := by
    cases start with
    | bare => exact .empty
    | root entityName explicit reserved root => exact .ofRoot entityName explicit reserved root
  let s := start.supply.run requests
  obtain ⟨least, free, before⟩ := s.table.nextNumber_least (token entityName)
  constructor
  case ends => exact s.table.finds_next entityName
  case once => exact fun _ _ found => (s.table.finds_next entityName).unique found
  case least =>
    have unused := mt isTaken_iff.mpr (Bool.eq_false_iff.mp free)
    rw [List.mem_append, not_or] at unused
    refine ⟨_, rfl, least, unused.1, unused.2, fun n above less => ?_⟩
    exact List.mem_append.mp (isTaken_iff.mp (before n above less))
  case new => exact (begun.run requests).not_mem_given entityName
  case allocates => exact fun node => ⟨_, s.table.allocate_next entityName node⟩

/-- A reserved name and one in use are passed over, and numbers are never tried again. -/
example : (Supply.run {} [.reserve ["t"], .register "t2" 0, .next "Ticket", .next "Tag",
    .allocate "Task" none 1]).given = ["t1", "t3", "t4"] := by
  decide

end Supply

end QueryForest.AliasTable
