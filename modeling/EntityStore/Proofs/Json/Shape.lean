import EntityStore.Json.Shape

/-!
What the readers of typed values give: a list that is written element by element is read back, and
what a member holds has been read of some value, unless it is absent.
-/
namespace EntityStore

namespace Json

theorem array?_map_of {α β : Type} {read : Json → Option β} {write : α → Json} {back : α → β}
    {xs : List α} (h : ∀ x ∈ xs, read (write x) = some (back x)) :
    array? read (.arr (xs.map write)) = some (xs.map back) := by
  rw [array?]
  induction xs with
  | nil => rfl
  | cons x rest ih =>
    obtain ⟨hx, hrest⟩ := List.forall_mem_cons.mp h
    simp [List.mapM_cons, hx, ih hrest]

theorem array?_map {α : Type} {read : Json → Option α} {write : α → Json} {xs : List α}
    (h : ∀ x ∈ xs, read (write x) = some x) : array? read (.arr (xs.map write)) = some xs := by
  rw [array?_map_of h, List.map_id']

theorem array?_str (names : List String) : array? string? (.arr (names.map .str)) = some names :=
  array?_map fun _ _ => rfl

theorem uint64?_le {v : Json} {n : Nat} (h : v.uint64? = some n) : n ≤ Text.maxUInt64 := by
  unfold uint64? natUpTo? at h
  split at h
  · split at h
    · next hbound =>
      cases h
      omega
    · cases h
  · cases h

theorem nullable?_ofNat {n : Option Nat} (h : ∀ k ∈ n, k ≤ Text.maxUInt64) :
    nullable? uint64? (ofOption ofNat n) = some n := by
  cases n with
  | none => rfl
  | some k =>
    have hk : k ≤ Text.maxUInt64 := h k rfl
    simp [ofOption, ofNat, nullable?, uint64?, natUpTo?, hk]

end Json

namespace Record

variable {α : Type} {names : List String} {read : Json → Option α} {r : Record}

theorem exists_of_required? {x : α} (h : required? names read r = some x) :
    ∃ v, read v = some x := by
  simp only [required?, Option.bind_eq_bind, Option.bind_eq_some_iff] at h
  obtain ⟨_, _, v, -, hv⟩ := h
  exact ⟨v, hv⟩

theorem exists_of_defaulted? {default x : α} (h : defaulted? names default read r = some x) :
    x = default ∨ ∃ v, read v = some x := by
  simp only [defaulted?, Option.bind_eq_bind, Option.bind_eq_some_iff] at h
  obtain ⟨found, -, hread⟩ := h
  cases found with
  | none => exact .inl (Option.some.inj hread).symm
  | some v => exact .inr ⟨v, hread⟩

theorem exists_of_optional? {x : Option α} (h : optional? names read r = some x) :
    ∀ y ∈ x, ∃ v, read v = some y := by
  intro y hy
  rw [Option.mem_def] at hy
  subst hy
  rcases exists_of_defaulted? h with hnone | ⟨v, hv⟩
  · cases hnone
  · unfold Json.nullable? at hv
    split at hv
    · cases hv
    · obtain ⟨_, hz, heq⟩ := Option.map_eq_some_iff.mp hv
      exact ⟨v, hz.trans heq⟩

end Record

end EntityStore
