import EntityStore.Key
import EntityStore.Proofs.Text.Numeral

/-!
Which keys are gathered under one text. The text of a key that means an integer of 64 bits, as a
number or as a numeral, is the numeral of this integer, and no other value has this text.
-/
namespace EntityStore

namespace Text

/-- Only a negative number has a sign. -/
theorem toString_ofNat_ne_negSucc (m n : Nat) :
    toString (Int.ofNat m) ≠ toString (Int.negSucc n) := by
  intro h
  have hchars := congrArg String.toList h
  rw [toList_toString_ofNat, toList_toString_negSucc] at hchars
  rw [← List.append_nil (Nat.toDigits 10 m)] at hchars
  exact toDigits_append_ne_cons m (by decide) [] _ hchars

theorem toString_int_inj {m n : Int} : toString m = toString n ↔ m = n := by
  refine ⟨fun h => ?_, congrArg toString⟩
  have hchars := congrArg String.toList h
  cases m with
  | ofNat m =>
    cases n with
    | ofNat n =>
      rw [toList_toString_ofNat, toList_toString_ofNat] at hchars
      rw [← natFrom_toDigits m, hchars, natFrom_toDigits]
    | negSucc n => exact absurd h (toString_ofNat_ne_negSucc m n)
  | negSucc m =>
    cases n with
    | ofNat n => exact absurd h.symm (toString_ofNat_ne_negSucc n m)
    | negSucc n =>
      rw [toList_toString_negSucc, toList_toString_negSucc] at hchars
      have hdigits := congrArg (natFrom 0) (List.cons.inj hchars).2
      rw [natFrom_toDigits, natFrom_toDigits] at hdigits
      rw [Nat.succ.inj hdigits]

def Foreign (c : Char) : Prop :=
  c.isDigit = false ∧ c ≠ '-'

theorem not_foreign_of_mem_toString {n : Int} {c : Char} (hc : c ∈ (toString n).toList) :
    ¬ Foreign c := by
  rintro ⟨hdigit, hminus⟩
  cases n with
  | ofNat n =>
    rw [toList_toString_ofNat] at hc
    rw [isDigit_toDigits n c hc] at hdigit
    cases hdigit
  | negSucc n =>
    rw [toList_toString_negSucc] at hc
    rcases List.mem_cons.mp hc with rfl | hc
    · exact hminus rfl
    · rw [isDigit_toDigits (n + 1) c hc] at hdigit
      cases hdigit

theorem ne_toString_of_foreign {s : String} (h : ∃ c ∈ s.toList, Foreign c) (n : Int) :
    s ≠ toString n := by
  rintro rfl
  obtain ⟨c, hc, hforeign⟩ := h
  exact not_foreign_of_mem_toString hc hforeign

/-- What is read fits 64 bits. -/
theorem readTrimmedInt64?_bounds {s : String} {n : Int} (h : readTrimmedInt64? s = some n) :
    -0x8000000000000000 ≤ n ∧ n < 0x8000000000000000 := by
  unfold readTrimmedInt64? readInt64? at h
  split at h <;>
  · obtain ⟨magnitude, -, hfits⟩ := Option.bind_eq_some_iff.mp h
    obtain ⟨hfits, hn⟩ := Option.ite_none_right_eq_some.mp hfits
    cases hn
    have hmax : maxInt64 = 0x7FFFFFFFFFFFFFFF := rfl
    omega

end Text

namespace Decimal

def IsMark (c : Char) : Prop :=
  c = '.' ∨ c = 'e'

theorem exists_mark_scientific (d : Decimal) : ∃ c ∈ scientific d, IsMark c := by
  refine ⟨'e', ?_, .inr rfl⟩
  unfold scientific
  refine List.mem_append_left _ (List.mem_append_right _ ?_)
  split <;> exact List.mem_cons_self ..

/-- Digits behind the point come with the point. -/
theorem mem_positional_of_fraction {d : Decimal} (h : ¬ 0 ≤ d.exponent) : '.' ∈ positional d := by
  unfold positional
  rw [if_neg h]
  split <;> simp

/-- The text of a double in a document cannot be taken for that of an integer. -/
theorem exists_mark_documentText (x : Float) : ∃ c ∈ (documentText x).toList, IsMark c := by
  unfold documentText
  simp only [String.toList_ofList, List.mem_append]
  split
  · exact ⟨'.', .inr (by simp), .inl rfl⟩
  · split
    · obtain ⟨c, hc, hmark⟩ := exists_mark_scientific (shortest x)
      exact ⟨c, .inr hc, hmark⟩
    · split
      · exact ⟨'.', .inr (by simp), .inl rfl⟩
      · next hwhole => exact ⟨'.', .inr (mem_positional_of_fraction hwhole), .inl rfl⟩

end Decimal

namespace Json

/-- The integer of 64 bits that a value means, as a number or as a numeral with or without blanks
around it. -/
def integer? : Json → Option Int
  | .num (.int n) =>
    if -0x8000000000000000 ≤ n ∧ n < 0x8000000000000000 then some n else none
  | .str s => Text.readTrimmedInt64? s
  | _ => none

open Text

variable {v : Json} {n : Int}

theorem integer?_bounds (h : v.integer? = some n) :
    -0x8000000000000000 ≤ n ∧ n < 0x8000000000000000 := by
  unfold integer? at h
  split at h
  · split at h
    · next hfits =>
      cases h
      exact hfits
    · cases h
  · exact readTrimmedInt64?_bounds h
  · cases h

theorem keyText_of_integer? (h : v.integer? = some n) : v.keyText = toString n := by
  unfold integer? at h
  split at h
  · split at h
    · cases h
      rfl
    · cases h
  · rw [keyText, h]
  · cases h

/-- The text of a double is marked as such. -/
theorem exists_foreign_float (x : Float) : ∃ c ∈ (numberText (.float x)).toList, Foreign c := by
  rw [numberText]
  split
  · obtain ⟨c, hc, rfl | rfl⟩ := Decimal.exists_mark_documentText x
    · exact ⟨'.', hc, by decide, by decide⟩
    · exact ⟨'e', hc, by decide, by decide⟩
  · exact ⟨'n', by decide, by decide, by decide⟩

/-- A value with the text of an integer means this integer. -/
theorem integer?_of_keyText (hlow : -0x8000000000000000 ≤ n) (hhigh : n < 0x8000000000000000)
    (h : v.keyText = toString n) : v.integer? = some n := by
  by_cases hforeign : ∃ c ∈ v.keyText.toList, Foreign c
  · exact absurd h (ne_toString_of_foreign hforeign n)
  · cases v with
    | str s =>
      rw [keyText] at h
      split at h
      · next m hm =>
        rw [integer?, hm, toString_int_inj.mp h]
      · next hnone =>
        rw [h, readTrimmedInt64?_toString hlow hhigh] at hnone
        cases hnone
    | num m =>
      cases m with
      | int m =>
        rw [integer?, toString_int_inj.mp (show toString m = toString n from h)]
        exact if_pos ⟨hlow, hhigh⟩
      | float x => exact absurd (exists_foreign_float x) hforeign
    | null => exact absurd ⟨'n', by decide, by decide, by decide⟩ hforeign
    | bool b => cases b <;> exact absurd ⟨'e', by decide, by decide, by decide⟩ hforeign
    | arr items => exact absurd ⟨'[', by simp [keyText, text], by decide, by decide⟩ hforeign
    | obj members => exact absurd ⟨'\x7b', by simp [keyText, text], by decide, by decide⟩ hforeign

theorem keyText_eq_keyText_iff {key : Json} (h : key.integer? = some n) :
    v.keyText = key.keyText ↔ v.integer? = some n := by
  obtain ⟨hlow, hhigh⟩ := integer?_bounds h
  rw [keyText_of_integer? h]
  exact ⟨integer?_of_keyText hlow hhigh, keyText_of_integer?⟩

end Json

end EntityStore
