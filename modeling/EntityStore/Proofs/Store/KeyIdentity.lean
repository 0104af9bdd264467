import EntityStore.Proofs.Store.KeyText
import EntityStore.Proofs.Text.Spelling

/-!
Which keys are the same. A value that can be a key means one positive integer, as a number or
spelled in a text. Keys are gathered by this integer. They are also bound as this integer while it
fits 64 signed bits; a number beyond is bound as the double nearest to it, which it shares with
others.
-/
namespace EntityStore

open Text

/-- The value means this integer: it is its number, or a text that spells it. -/
def Json.Means (n : Nat) : Json → Prop
  | .num (.int m) => m = n
  | .str s => Spells s n
  | _ => False

variable {v w : Json} {m n : Nat}

section Meaning

/-- A key means one integer. -/
theorem Json.exists_means_of_isKey (h : v.isKey = true) :
    ∃ n : Nat, 0 < n ∧ ∀ k, v.Means k ↔ k = n := by
  unfold Json.isKey at h
  split at h
  · next m =>
    have hm : 0 < m := of_decide_eq_true h
    refine ⟨m.toNat, by omega, fun k => ?_⟩
    rw [Json.Means]
    omega
  · next s =>
    split at h
    · next m hread =>
      have hm : 0 < m := of_decide_eq_true h
      obtain ⟨n, rfl⟩ := Int.eq_ofNat_of_zero_le (Int.le_of_lt hm)
      have hspells : Spells s n := spells_of_readTrimmedInt64? (by omega) hread
      refine ⟨n, by omega, fun k => ⟨fun hk => ?_, fun hk => hk ▸ hspells⟩⟩
      -- a text is read in one way
      rw [Spells.readTrimmedInt64?_eq hk] at hread
      obtain ⟨-, hk⟩ := Option.ite_none_right_eq_some.mp hread
      exact Int.natCast_inj.mp (Option.some.inj hk)
    · cases h
  · cases h

/-- Only numbers lead beyond 64 signed bits. -/
theorem Json.means_cases (h : v.isKey = true) (hn : v.Means n) :
    v = .num (.int n) ∨ n ≤ maxInt64 ∧ ∃ s, v = .str s ∧ readTrimmedInt64? s = some (n : Int) := by
  unfold Json.isKey at h
  split at h
  · rw [Json.Means] at hn
    exact .inl (by rw [hn])
  · next s =>
    rw [Spells.readTrimmedInt64?_eq hn] at h
    by_cases hfits : n ≤ maxInt64
    · exact .inr ⟨hfits, s, rfl, by rw [Spells.readTrimmedInt64?_eq hn, if_pos hfits]⟩
    · rw [if_neg hfits] at h
      cases h
  · cases h

end Meaning

section Forms

theorem Json.keyText_of_means (h : v.isKey = true) (hn : v.Means n) :
    v.keyText = toString (n : Int) := by
  obtain rfl | ⟨-, s, rfl, hread⟩ := means_cases h hn
  · rfl
  · rw [keyText, hread]

theorem Parameter.ofNumber_nat (n : Nat) :
    ofNumber (.int n) = if n ≤ maxInt64 then .int n else .float (Float.ofNat n) := by
  have hbound : (n : Int) < 0x8000000000000000 ↔ n ≤ maxInt64 := by
    rw [maxInt64]
    omega
  rw [ofNumber, Number.int64?]
  by_cases hfits : n ≤ maxInt64
  · rw [if_pos (hbound.mpr hfits), if_pos hfits]
  · rw [if_neg (mt hbound.mp hfits), if_neg hfits]
    dsimp only
    rw [Number.toFloat, if_pos (Int.natCast_nonneg n), Int.toNat_natCast]

theorem Parameter.ofId_of_means (h : v.isKey = true) (hn : v.Means n) :
    ofId v = if n ≤ maxInt64 then .int n else .float (Float.ofNat n) := by
  obtain rfl | ⟨hfits, s, rfl, hread⟩ := Json.means_cases h hn
  · exact ofNumber_nat n
  · rw [if_pos hfits, ofId, hread]

/-- Keys are bound alike where they mean the same integer, and beyond 64 signed bits also where
their integers have the same nearest double. -/
theorem Parameter.ofId_eq_ofId_iff (hv : v.isKey = true) (hm : v.Means m) (hw : w.isKey = true)
    (hn : w.Means n) : ofId v = ofId w ↔
      m = n ∨ maxInt64 < m ∧ maxInt64 < n ∧ Float.ofNat m = Float.ofNat n := by
  rw [ofId_of_means hv hm, ofId_of_means hw hn]
  by_cases hmfits : m ≤ maxInt64 <;> by_cases hnfits : n ≤ maxInt64
  · rw [if_pos hmfits, if_pos hnfits, int.injEq, Int.natCast_inj]
    omega
  · rw [if_pos hmfits, if_neg hnfits]
    refine ⟨nofun, fun h => ?_⟩
    omega
  · rw [if_neg hmfits, if_pos hnfits]
    refine ⟨nofun, fun h => ?_⟩
    omega
  · rw [if_neg hmfits, if_neg hnfits, float.injEq]
    refine ⟨fun h => .inr ⟨by omega, by omega, h⟩, ?_⟩
    rintro (rfl | ⟨-, -, h⟩)
    · rfl
    · exact h

end Forms

/-- Two values that can be keys each mean one positive integer, whose numeral is the text that rows
of the key are gathered under; so they fall together exactly where they mean the same. A key is
bound as its integer exactly where this fits 64 signed bits, and as the nearest double otherwise.
So keys are bound alike exactly where they mean the same, except that numbers beyond are also bound
alike when they are rounded alike. -/
theorem key_identity_iff {v w : Json} (hv : v.isKey = true) (hw : w.isKey = true) :
    ∃ m n : Nat, 0 < m ∧ 0 < n ∧ (∀ k, v.Means k ↔ k = m) ∧ (∀ k, w.Means k ↔ k = n) ∧
      v.keyText = toString (m : Int) ∧ (v.keyText = w.keyText ↔ m = n) ∧
      (Parameter.ofId v = .int m ↔ m ≤ maxInt64) ∧
      (maxInt64 < m → Parameter.ofId v = .float (Float.ofNat m)) ∧
      (Parameter.ofId v = Parameter.ofId w ↔
        m = n ∨ maxInt64 < m ∧ maxInt64 < n ∧ Float.ofNat m = Float.ofNat n) := by
  obtain ⟨m, hpositive, hmeans⟩ := Json.exists_means_of_isKey hv
  obtain ⟨n, hpositive', hmeans'⟩ := Json.exists_means_of_isKey hw
  have hm : v.Means m := (hmeans m).mpr rfl
  have hn : w.Means n := (hmeans' n).mpr rfl
  have hbound := Parameter.ofId_of_means hv hm
  refine ⟨m, n, hpositive, hpositive', hmeans, hmeans', Json.keyText_of_means hv hm, ?_, ?_, ?_,
    Parameter.ofId_eq_ofId_iff hv hm hw hn⟩
  · rw [Json.keyText_of_means hv hm, Json.keyText_of_means hw hn, toString_int_inj,
      Int.natCast_inj]
  · rw [hbound]
    by_cases hfits : m ≤ maxInt64 <;> simp [hfits]
  · intro hlarge
    rw [hbound, if_neg (by omega)]

/-- The number five and a text that spells it with a sign, zeros and blanks are the same key. -/
theorem key_identity_of_five :
    (Json.ofInt 5).isKey = true ∧ (Json.str " +005 ").isKey = true ∧
    (Json.ofInt 5).Means 5 ∧ (Json.str " +005 ").Means 5 ∧
    (Json.ofInt 5).keyText = "5" ∧ (Json.ofInt 5).keyText = (Json.str " +005 ").keyText ∧
    Parameter.ofId (.ofInt 5) = .int 5 ∧
    Parameter.ofId (.ofInt 5) = Parameter.ofId (.str " +005 ") := by
  have hnumber : (Json.ofInt 5).isKey = true := rfl
  have htext : (Json.str " +005 ").isKey = true := by decide
  obtain ⟨m, n, -, -, hm, hn, hkey, hsame, hbound, -, halike⟩ := key_identity_iff hnumber htext
  have hfive : 5 = m := (hm 5).mp rfl
  have hblank : ∀ c ∈ [' ', ' '], Text.isBlank c = true :=
    List.forall_mem_cons.mpr ⟨rfl, List.forall_mem_singleton.mpr rfl⟩
  have hspelled : Text.Spells " +005 " 5 :=
    ⟨[' '], ['+'], [' '], 2, hblank, .inr rfl, by decide⟩
  have hfive' : 5 = n := (hn 5).mp hspelled
  subst hfive hfive'
  exact ⟨hnumber, htext, rfl, hspelled, hkey, hsame.mpr rfl, hbound.mpr (by decide),
    halike.mpr (.inl rfl)⟩

/-- The integers from `2^63` on are keys that differ by their texts, and yet two of them are bound
as one double. -/
theorem large_keys_bound_alike :
    let key : Json := .ofInt 0x8000000000000000
    let next : Json := .ofInt 0x8000000000000001
    key.isKey = true ∧ key.Means 0x8000000000000000 ∧
    Parameter.ofId key ≠ .int 0x8000000000000000 ∧ next.isKey = true ∧
    next.Means 0x8000000000000001 ∧ key.keyText ≠ next.keyText ∧
    Parameter.ofId key = Parameter.ofId next := by
  refine ⟨rfl, rfl, nofun, rfl, rfl, by decide, rfl⟩

end EntityStore
