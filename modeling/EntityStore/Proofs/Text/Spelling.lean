import EntityStore.Proofs.Text.Numeral
import Mathlib.Data.List.TakeWhile

/-!
The texts that are read as a positive integer of 64 bits. They are its numeral, with any zeros in
front of it, a plus sign in front of these, and blanks around it all.
-/
namespace EntityStore.Text

/-- The text spells the number: its numeral with zeros in front, a plus sign and blanks around it,
or without them. -/
def Spells (s : String) (n : Nat) : Prop :=
  ∃ before sign after zeros, (∀ c ∈ before ++ after, isBlank c = true) ∧
    (sign = [] ∨ sign = ['+']) ∧
    s.toList = before ++ (sign ++ (List.replicate zeros '0' ++ Nat.toDigits 10 n)) ++ after

section Zeros

variable {n : Nat} {ds : List Char}

theorem digitChar_digitValue {c : Char} (h : c.isDigit = true) :
    digitValue c < 10 ∧ (digitValue c).digitChar = c := by
  have hrange : 48 ≤ c.toNat ∧ c.toNat ≤ 57 := by
    simpa [Char.isDigit, UInt32.le_iff_toNat_le] using h
  unfold digitValue
  refine ⟨by omega, Char.toNat_inj.mp ?_⟩
  rw [Nat.toNat_digitChar_of_lt_ten (by omega)]
  omega

/-- Digits behind a numeral make the numeral of what is read of both. -/
theorem toDigits_append (hn : 0 < n) (hds : ∀ c ∈ ds, c.isDigit = true) :
    Nat.toDigits 10 n ++ ds = Nat.toDigits 10 (natFrom n ds) := by
  induction ds generalizing n with
  | nil => exact List.append_nil _
  | cons c rest ih =>
    obtain ⟨hc, hrest⟩ := List.forall_mem_cons.mp hds
    obtain ⟨hlt, hchar⟩ := digitChar_digitValue hc
    have hone : Nat.toDigits 10 (10 * n + digitValue c) = Nat.toDigits 10 n ++ [c] := by
      rw [← Nat.toDigits_append_toDigits (by decide) hn hlt, Nat.toDigits_of_lt_base hlt, hchar]
    calc
      Nat.toDigits 10 n ++ c :: rest = Nat.toDigits 10 n ++ [c] ++ rest := by simp
      _ = Nat.toDigits 10 (natFrom n (c :: rest)) := by rw [← hone, ih (by omega) hrest]; rfl

/-- What is read as a positive number is its numeral with zeros in front. -/
theorem eq_zeros_append_toDigits (hds : ∀ c ∈ ds, c.isDigit = true) (h : natFrom 0 ds = n)
    (hn : 0 < n) : ∃ zeros, ds = List.replicate zeros '0' ++ Nat.toDigits 10 n := by
  induction ds with
  | nil =>
    subst h
    cases hn
  | cons c rest ih =>
    obtain ⟨hc, hrest⟩ := List.forall_mem_cons.mp hds
    obtain ⟨hlt, hchar⟩ := digitChar_digitValue hc
    have hfrom : natFrom (digitValue c) rest = n := by
      rw [← h, natFrom, natFrom, List.foldl_cons, Nat.mul_zero, Nat.zero_add]
    by_cases hzero : digitValue c = 0
    · rw [hzero] at hfrom hchar
      obtain ⟨zeros, rfl⟩ := ih hrest hfrom
      exact ⟨zeros + 1, by rw [← hchar]; rfl⟩
    · refine ⟨0, ?_⟩
      rw [← hfrom, ← toDigits_append (by omega) hrest, Nat.toDigits_of_lt_base hlt, hchar]
      rfl

theorem isDigit_zeros_append (zeros n : Nat) :
    ∀ c ∈ List.replicate zeros '0' ++ Nat.toDigits 10 n, c.isDigit = true := by
  refine List.forall_mem_append.mpr ⟨fun c hc => ?_, isDigit_toDigits n⟩
  rw [List.eq_of_mem_replicate hc]
  decide

theorem readNat?_zeros_append (zeros n : Nat) :
    readNat? (List.replicate zeros '0' ++ Nat.toDigits 10 n) = some n := by
  have hdigits : (List.replicate zeros '0' ++ Nat.toDigits 10 n).all Char.isDigit = true :=
    List.all_eq_true.mpr (isDigit_zeros_append zeros n)
  have hsome : (List.replicate zeros '0' ++ Nat.toDigits 10 n).isEmpty = false := by
    simp [Nat.toDigits_ne_nil]
  have hvalue : natFrom 0 (List.replicate zeros '0' ++ Nat.toDigits 10 n) = n := by
    induction zeros with
    | zero => exact natFrom_toDigits n
    | succ zeros ih => exact ih (by simpa using hdigits) (by simp [Nat.toDigits_ne_nil])
  rw [readNat?, hsome, hdigits, hvalue]
  rfl

end Zeros

section Blanks

variable {before core after : List Char}

theorem trimLeft_append (hbefore : ∀ c ∈ before, isBlank c = true)
    (hcore : ∀ c ∈ core, isBlank c = false) (hne : core ≠ []) (rest : List Char) :
    trimLeft (before ++ (core ++ rest)) = core ++ rest := by
  obtain ⟨c, others, rfl⟩ := List.exists_cons_of_ne_nil hne
  rw [trimLeft, List.dropWhile_append_of_pos hbefore, List.cons_append]
  exact List.dropWhile_cons_of_neg (by simp [hcore c (List.mem_cons_self ..)])

/-- Blanks around a text without blanks are taken off. -/
theorem toList_trim {s : String} (hblank : ∀ c ∈ before ++ after, isBlank c = true)
    (hcore : ∀ c ∈ core, isBlank c = false) (hne : core ≠ [])
    (h : s.toList = before ++ core ++ after) : (trim s).toList = core := by
  obtain ⟨hbefore, hafter⟩ := List.forall_mem_append.mp hblank
  have hback : ∀ c ∈ after.reverse, isBlank c = true := fun c hc =>
    hafter c (List.mem_reverse.mp hc)
  have hturned : ∀ c ∈ core.reverse, isBlank c = false := fun c hc =>
    hcore c (List.mem_reverse.mp hc)
  have hright := trimLeft_append hback hturned (by simpa using hne) []
  rw [trim, String.toList_ofList, h, List.append_assoc, trimLeft_append hbefore hcore hne,
    List.reverse_append, ← List.append_nil core.reverse, hright, List.append_nil,
    List.reverse_reverse]

theorem trimLeft_suffix (cs : List Char) :
    ∃ before, (∀ c ∈ before, isBlank c = true) ∧ cs = before ++ trimLeft cs :=
  ⟨cs.takeWhile isBlank, fun _ => List.mem_takeWhile_imp, List.takeWhile_append_dropWhile.symm⟩

/-- Nothing but blanks is taken off. -/
theorem exists_trim (s : String) : ∃ before after,
    (∀ c ∈ before ++ after, isBlank c = true) ∧ s.toList = before ++ (trim s).toList ++ after := by
  obtain ⟨before, hbefore, hleft⟩ := trimLeft_suffix s.toList
  obtain ⟨after, hafter, hright⟩ := trimLeft_suffix (trimLeft s.toList).reverse
  refine ⟨before, after.reverse, ?_, ?_⟩
  · exact List.forall_mem_append.mpr ⟨hbefore, fun c hc => hafter c (List.mem_reverse.mp hc)⟩
  · have hturned := congrArg List.reverse hright
    rw [List.reverse_reverse, List.reverse_append] at hturned
    rw [trim, String.toList_ofList, List.append_assoc, ← hturned]
    exact hleft

end Blanks

section Reading

variable {s : String} {n : Nat}

theorem not_blank_of_spelled {sign : List Char} (hsign : sign = [] ∨ sign = ['+']) (zeros : Nat) :
    ∀ c ∈ sign ++ (List.replicate zeros '0' ++ Nat.toDigits 10 n), isBlank c = false := by
  refine List.forall_mem_append.mpr ⟨?_, fun c hc => ?_⟩
  · obtain rfl | rfl := hsign
    · simp
    · exact List.forall_mem_singleton.mpr rfl
  · exact not_blank_of_isDigit (isDigit_zeros_append zeros n c hc)

/-- What is spelled is read, if it fits 64 bits. -/
theorem Spells.readTrimmedInt64?_eq (h : Spells s n) :
    readTrimmedInt64? s = if n ≤ maxInt64 then some (n : Int) else none := by
  obtain ⟨before, sign, after, zeros, hblank, hsign, hs⟩ := h
  have hne : sign ++ (List.replicate zeros '0' ++ Nat.toDigits 10 n) ≠ [] := by
    simp [Nat.toDigits_ne_nil]
  have htrim := toList_trim hblank (not_blank_of_spelled hsign zeros) hne hs
  have hread := readNat?_zeros_append zeros n
  rw [readTrimmedInt64?, readInt64?, htrim]
  obtain rfl | rfl := hsign
  · have hdigits := isDigit_zeros_append zeros n
    rw [List.nil_append] at *
    -- no sign stands in front of digits
    split
    · next hminus =>
      rw [hminus] at hdigits
      cases hdigits '-' (List.mem_cons_self ..)
    · next hplus =>
      rw [hplus] at hdigits
      cases hdigits '+' (List.mem_cons_self ..)
    · rw [hread]
      rfl
  · rw [List.singleton_append]
    simp only [hread]
    rfl

theorem digits_of_readNat? {ds : List Char} (h : readNat? ds = some n) :
    (∀ c ∈ ds, c.isDigit = true) ∧ natFrom 0 ds = n := by
  obtain ⟨hdigits, hvalue⟩ := Option.ite_none_right_eq_some.mp h
  exact ⟨List.all_eq_true.mp (Bool.and_eq_true_iff.mp hdigits).2, Option.some.inj hvalue⟩

theorem readNat?_of_bounded {ds : List Char}
    (h : (readNat? ds >>= fun m => if m ≤ maxInt64 then some (m : Int) else none) =
      some (n : Int)) : readNat? ds = some n := by
  obtain ⟨m, hm, hbounded⟩ := Option.bind_eq_some_iff.mp h
  obtain ⟨-, hmn⟩ := Option.ite_none_right_eq_some.mp hbounded
  rwa [Int.natCast_inj.mp (Option.some.inj hmn)] at hm

/-- What is read as a positive number spells it. -/
theorem spells_of_readTrimmedInt64? (hn : 0 < n) (h : readTrimmedInt64? s = some (n : Int)) :
    Spells s n := by
  obtain ⟨before, after, hblank, hs⟩ := exists_trim s
  have hspelled : ∀ sign ds, (sign = [] ∨ sign = ['+']) → (trim s).toList = sign ++ ds →
      readNat? ds = some n → Spells s n := by
    intro sign ds hsign htrim hread
    obtain ⟨hdigits, hvalue⟩ := digits_of_readNat? hread
    obtain ⟨zeros, rfl⟩ := eq_zeros_append_toDigits hdigits hvalue hn
    exact ⟨before, sign, after, zeros, hblank, hsign, htrim ▸ hs⟩
  rw [readTrimmedInt64?, readInt64?] at h
  split at h
  · -- a minus sign makes no positive number
    obtain ⟨m, -, hm⟩ := Option.bind_eq_some_iff.mp h
    obtain ⟨-, hm⟩ := Option.ite_none_right_eq_some.mp hm
    have hneg : -(m : Int) = n := Option.some.inj hm
    omega
  · next ds htrim => exact hspelled ['+'] ds (.inr rfl) htrim (readNat?_of_bounded h)
  · exact hspelled [] _ (.inl rfl) (List.nil_append _).symm (readNat?_of_bounded h)

end Reading

end EntityStore.Text
