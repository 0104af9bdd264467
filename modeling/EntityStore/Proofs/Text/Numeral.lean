import EntityStore.Text.Basic
import Mathlib.Tactic.Common

/-!
Numerals of integers: what is written of an integer is read back as this integer, with no blanks or
leading zeros in it.
-/
namespace EntityStore.Text

section Digits

variable {n : Nat}

theorem natFrom_toDigits (n : Nat) : natFrom 0 (Nat.toDigits 10 n) = n := calc
  natFrom 0 (Nat.toDigits 10 n) = Nat.ofDigitChars 10 (Nat.toDigits 10 n) 0 :=
    Nat.ofDigitChars_eq_foldl.symm
  _ = n := Nat.ofDigitChars_ten_toDigits

theorem isDigit_toDigits (n : Nat) : ∀ c ∈ Nat.toDigits 10 n, c.isDigit = true := fun _ hc =>
  Nat.isDigit_of_mem_toDigits (by decide) (by decide) hc

/-- A numeral begins with a digit, whatever stands behind it. -/
theorem toDigits_append_ne_cons (n : Nat) {c : Char} (hc : c.isDigit = false)
    (rest tail : List Char) : Nat.toDigits 10 n ++ rest ≠ c :: tail := by
  intro heq
  obtain ⟨first, others, hdigits⟩ := List.exists_cons_of_ne_nil (@Nat.toDigits_ne_nil n 10)
  have hfirst := isDigit_toDigits n first (hdigits ▸ List.mem_cons_self ..)
  rw [hdigits] at heq
  obtain ⟨rfl, -⟩ := List.cons.inj heq
  rw [hfirst] at hc
  cases hc

/-- A numeral begins with a zero for zero only. -/
theorem toDigits_eq_cons (hn : 0 < n) :
    ∃ c rest, Nat.toDigits 10 n = c :: rest ∧ c ≠ '0' := by
  induction n using Nat.strongRecOn with
  | ind n ih =>
    by_cases hsmall : n < 10
    · refine ⟨n.digitChar, [], Nat.toDigits_of_lt_base hsmall, fun hzero => ?_⟩
      exact (Nat.ne_of_gt hn) (Nat.digitChar_eq_zero.mp hzero)
    · have hbase : 10 ≤ n := Nat.le_of_not_lt hsmall
      obtain ⟨c, rest, hdigits, hc⟩ := ih (n / 10) (by omega) (by omega)
      refine ⟨c, rest ++ [(n % 10).digitChar], ?_, hc⟩
      rw [Nat.toDigits_of_base_le (by decide) hbase, hdigits, List.cons_append]

theorem readNat?_toDigits (n : Nat) : readNat? (Nat.toDigits 10 n) = some n := by
  have hsome : (Nat.toDigits 10 n).isEmpty = false := by
    rw [List.isEmpty_eq_false_iff]
    exact Nat.toDigits_ne_nil
  have hall : (Nat.toDigits 10 n).all Char.isDigit = true :=
    List.all_eq_true.mpr (isDigit_toDigits n)
  rw [readNat?, hsome, hall, natFrom_toDigits]
  rfl

theorem toList_toString (n : Nat) : (toString n).toList = Nat.toDigits 10 n := by
  rw [Nat.toString_eq_repr, Nat.toList_repr]

theorem toList_toString_ne_nil (n : Nat) : (toString n).toList ≠ [] := by
  rw [toList_toString]
  exact Nat.toDigits_ne_nil

theorem isDigit_of_mem_toString {c : Char} (h : c ∈ (toString n).toList) : c.isDigit = true := by
  rw [toList_toString] at h
  exact isDigit_toDigits n c h

theorem isAlphanum_of_mem_toString {c : Char} (h : c ∈ (toString n).toList) :
    c.isAlphanum = true := by
  rw [Char.isAlphanum, isDigit_of_mem_toString h, Bool.or_true]

theorem readNat?_toString (n : Nat) : readNat? (toString n).toList = some n := by
  rw [toList_toString, readNat?_toDigits]

end Digits

section Integers

theorem toList_toString_ofNat (n : Nat) : (toString (Int.ofNat n)).toList = Nat.toDigits 10 n :=
  String.toList_ofList

theorem toList_toString_negSucc (n : Nat) :
    (toString (Int.negSucc n)).toList = '-' :: Nat.toDigits 10 (n + 1) := by
  have hparts : toString (Int.negSucc n) = "-" ++ String.ofList (Nat.toDigits 10 (n + 1)) := rfl
  rw [hparts, String.toList_append]
  exact congrArg ('-' :: ·) String.toList_ofList

theorem trimLeft_eq_self {cs : List Char} (h : ∀ c ∈ cs, isBlank c = false) :
    trimLeft cs = cs := by
  cases cs with
  | nil => rfl
  | cons c rest => exact List.dropWhile_cons_of_neg (by simp [h c])

theorem trim_eq_self {s : String} (h : ∀ c ∈ s.toList, isBlank c = false) : trim s = s := by
  have hback : ∀ c ∈ s.toList.reverse, isBlank c = false := fun c hc =>
    h c (List.mem_reverse.mp hc)
  rw [trim, trimLeft_eq_self h, trimLeft_eq_self hback, List.reverse_reverse,
    String.ofList_toList]

theorem not_blank_of_isDigit {c : Char} (h : c.isDigit = true) : isBlank c = false := by
  have hrange : 48 ≤ c.toNat ∧ c.toNat ≤ 57 := by
    simpa [Char.isDigit, UInt32.le_iff_toNat_le] using h
  simp only [isBlank, Bool.or_eq_false_iff, Bool.and_eq_false_iff, decide_eq_false_iff_not,
    beq_eq_false_iff_ne]
  omega

/-- No blank stands in a numeral. -/
theorem trim_toString (n : Int) : trim (toString n) = toString n := by
  refine trim_eq_self fun c hc => ?_
  cases n with
  | ofNat m =>
    rw [toList_toString_ofNat] at hc
    exact not_blank_of_isDigit (isDigit_toDigits m c hc)
  | negSucc m =>
    rw [toList_toString_negSucc] at hc
    rcases List.mem_cons.mp hc with rfl | hdigit
    · decide
    · exact not_blank_of_isDigit (isDigit_toDigits (m + 1) c hdigit)

/-- A signed integer of 64 bits is read back from its numeral. -/
theorem readTrimmedInt64?_toString {n : Int} (hlow : -0x8000000000000000 ≤ n)
    (hhigh : n < 0x8000000000000000) :
    readTrimmedInt64? (toString n) = some n := by
  rw [readTrimmedInt64?, trim_toString, readInt64?]
  cases n with
  | ofNat m =>
    have hfits : m ≤ maxInt64 := by
      rw [Int.ofNat_eq_natCast] at hhigh
      simp only [maxInt64]
      omega
    rw [toList_toString_ofNat]
    split
    · next rest hcs =>
      rw [← List.append_nil (Nat.toDigits 10 m)] at hcs
      exact absurd hcs (toDigits_append_ne_cons m (by decide) [] rest)
    · next rest hcs =>
      rw [← List.append_nil (Nat.toDigits 10 m)] at hcs
      exact absurd hcs (toDigits_append_ne_cons m (by decide) [] rest)
    · simp [readNat?_toDigits, hfits]
  | negSucc m =>
    have hfits : m + 1 ≤ maxInt64 + 1 := by
      simp only [maxInt64]
      omega
    rw [toList_toString_negSucc]
    simp [readNat?_toDigits, hfits, Int.negSucc_eq]

end Integers

end EntityStore.Text
