import Mathlib.Data.List.Perm.Subperm
import QueryForest.Proofs.Tree.Aliases
import QueryForest.Proofs.Tree.Growth

set_option autoImplicit false

/-!
# Derived aliases

An alias tells its letter and its number (`numbered_inj`). So among one more numbers
than there are names to pass over one is free, and the alias that is derived for an entity never is
one of these names (`isTaken_next`). That is why a node whose alias is derived is always registered
(`allocate_next`): a call that has moved a counter does not fail for the alias any more.
-/

namespace QueryForest.AliasTable

variable {t : AliasTable} {token : Char}

/-! ## Numbers behind a letter -/

theorem toList_numbered (token : Char) (n : Nat) :
    (numbered token n).toList = token :: if n = 0 then [] else Nat.toDigits 10 n := by
  unfold numbered
  split
  · exact String.toList_ofList
  · rw [String.toList_append, String.toList_ofList]
    exact congrArg (token :: ·) String.toList_ofList

/-- A letter and a number are read off the alias that they make. -/
theorem numbered_inj {token' : Char} {n m : Nat} :
    numbered token n = numbered token' m ↔ token = token' ∧ n = m := by
  constructor
  · intro h
    have texts := congrArg String.toList h
    rw [toList_numbered, toList_numbered] at texts
    obtain ⟨letter, digits⟩ := List.cons.inj texts
    -- The digits of a number are read back, and there are none for the number that is not written.
    have back (n : Nat) : Nat.ofDigitChars 10 (if n = 0 then [] else Nat.toDigits 10 n) 0 = n := by
      split
      · next zero => exact zero.symm
      · exact Nat.ofDigitChars_toDigits (by decide) (by decide)
    refine ⟨letter, ?_⟩
    rw [← back n, digits, back m]
  · rintro ⟨rfl, rfl⟩
    rfl

/-! ## The next alias -/

theorem isTaken_iff {aliasName : String} :
    t.isTaken aliasName = true ↔ aliasName ∈ t.names ++ t.reserved := by
  simp [isTaken]

/-- Among one more numbers than there are names to pass over, one is free. -/
theorem exists_free (t : AliasTable) (token : Char) (start : Nat) :
    ∃ i < t.owners.length + t.reserved.length + 1,
      t.isTaken (numbered token (start + i)) = false := by
  by_contra none
  have taken (i : Nat) (hi : i < t.owners.length + t.reserved.length + 1) :
      numbered token (start + i) ∈ t.names ++ t.reserved := by
    by_contra free
    refine none ⟨i, hi, Bool.eq_false_iff.mpr fun used => free (isTaken_iff.mp used)⟩
  -- These aliases are all different, so that there would be more of them than there are names.
  let tried := (List.range (t.owners.length + t.reserved.length + 1)).map
    fun i => numbered token (start + i)
  have different : tried.Nodup := by
    refine List.Nodup.map (fun i j same => ?_) List.nodup_range
    have numbers := (numbered_inj.mp same).2
    omega
  have subset : tried ⊆ t.names ++ t.reserved := by
    intro aliasName mem
    obtain ⟨i, hi, rfl⟩ := List.mem_map.mp mem
    exact taken i (List.mem_range.mp hi)
  have most := (different.subperm subset).length_le
  have tries : tried.length = t.owners.length + t.reserved.length + 1 := by simp [tried]
  have names : (t.names ++ t.reserved).length = t.owners.length + t.reserved.length := by
    simp [AliasTable.names]
  omega

/-- The number that is taken is the least one from the counter on whose alias is free. -/
theorem nextNumber_least (t : AliasTable) (token : Char) :
    t.counter token ≤ t.nextNumber token ∧
      t.isTaken (numbered token (t.nextNumber token)) = false ∧
      ∀ n, t.counter token ≤ n → n < t.nextNumber token → t.isTaken (numbered token n) = true := by
  obtain ⟨i, hi, free⟩ := t.exists_free token (t.counter token)
  cases found : (List.range (t.owners.length + t.reserved.length + 1)).find? fun i =>
      !t.isTaken (numbered token (t.counter token + i)) with
  | none =>
      have passed := List.find?_range_eq_none.mp found i hi
      rw [free] at passed
      exact absurd passed (by decide)
  | some k =>
      have chosen : t.nextNumber token = t.counter token + k := by simp [nextNumber, found]
      obtain ⟨first, -, before⟩ := List.find?_range_eq_some.mp found
      rw [chosen]
      refine ⟨Nat.le_add_right _ _, by simpa using first, fun n least less => ?_⟩
      obtain ⟨j, rfl⟩ := Nat.exists_eq_add_of_le least
      simpa using before j (Nat.lt_of_add_lt_add_left less)

/-- **A derived alias is neither in use nor reserved.** -/
theorem isTaken_next (t : AliasTable) (entityName : String) :
    t.isTaken (t.next entityName).1 = false :=
  (t.nextNumber_least (AliasTable.token entityName)).2.1

/-- The next derived alias can be registered: counting it does not change the names. -/
theorem register_next (t : AliasTable) (entityName : String) (id : NodeId) :
    (t.next entityName).2.register (t.next entityName).1 id
      = .ok ((t.next entityName).2.add (t.next entityName).1 id) := by
  have free : (t.next entityName).1 ∉ (t.next entityName).2.names := by
    intro used
    have taken : t.isTaken (t.next entityName).1 = true :=
      isTaken_iff.mpr (List.mem_append_left _ used)
    rw [t.isTaken_next] at taken
    exact Bool.false_ne_true taken
  exact if_neg free

/-- **A node whose alias is derived is always registered**, and counting is all else that is done. -/
theorem allocate_next (t : AliasTable) (entityName : String) (id : NodeId) :
    t.allocate entityName none id
      = .ok ((t.next entityName).1, (t.next entityName).2.add (t.next entityName).1 id) := by
  show ((t.next entityName).2.register (t.next entityName).1 id).map _ = _
  rw [register_next]
  rfl

/-- A node whose alias is derived gets none of the reserved names. -/
theorem allocate_derived {entityName aliasName : String} {id : NodeId} {t' : AliasTable}
    (h : t.allocate entityName none id = .ok (aliasName, t')) : aliasName ∉ t.reserved := by
  rw [allocate_next] at h
  obtain ⟨rfl, -⟩ := Prod.mk.inj (Except.ok.inj h)
  intro reserved
  have taken : t.isTaken (t.next entityName).1 = true :=
    isTaken_iff.mpr (List.mem_append_right _ reserved)
  rw [t.isTaken_next] at taken
  exact Bool.false_ne_true taken

end QueryForest.AliasTable

namespace QueryForest.Tree

/-- A join whose alias is derived is always added. -/
theorem exists_addJoin (t : Tree) (reference : NodeId) (source : NodeSource) (kind : Sql.JoinKind) :
    ∃ made, t.addJoin reference source kind none = .ok made := by
  rw [addJoin_eq, t.aliases.allocate_next]
  exact ⟨_, rfl⟩

end QueryForest.Tree
