import EntityStore.Json.Basic

/-!
Induction on values of documents, and what is found in a record after members are set in it: of
several members with one key the last one counts.
-/
namespace EntityStore

/-- What holds of arrays and objects when it holds of what they contain, and of all other values,
holds of values. -/
@[elab_as_elim]
theorem Json.induction {motive : Json → Prop} (null : motive .null)
    (bool : ∀ b, motive (.bool b)) (num : ∀ n, motive (.num n)) (str : ∀ s, motive (.str s))
    (arr : ∀ items, (∀ v ∈ items, motive v) → motive (.arr items))
    (obj : ∀ members, (∀ m ∈ members, motive m.2) → motive (.obj members)) (v : Json) : motive v :=
  @Json.rec motive (fun items => ∀ v ∈ items, motive v)
    (fun members => ∀ m ∈ members, motive m.2) (fun m => motive m.2) null bool num str arr obj
    (by simp) (fun _ _ hv hrest => List.forall_mem_cons.mpr ⟨hv, hrest⟩)
    (by simp) (fun _ _ hm hrest => List.forall_mem_cons.mpr ⟨hm, hrest⟩) (fun _ _ h => h) v

namespace Record

theorem get?_set_self (k : String) (v : Json) (r : Record) : get? k (set k v r) = some v := by
  induction r with
  | nil => simp [set, get?]
  | cons m rest ih =>
    obtain ⟨key, value⟩ := m
    by_cases hkey : k = key
    · simp [set, get?, hkey]
    · have hne : key ≠ k := fun h => hkey h.symm
      by_cases hlt : k < key
      · simp [set, get?, hkey, hlt]
      · simp [set, get?, hkey, hlt, hne, ih]

theorem get?_set_of_ne {k key : String} (hne : key ≠ k) (v : Json) (r : Record) :
    get? k (set key v r) = get? k r := by
  induction r with
  | nil => simp [set, get?, hne]
  | cons m rest ih =>
    obtain ⟨other, value⟩ := m
    by_cases hkey : key = other
    · subst hkey
      simp [set, get?, hne]
    · by_cases hlt : key < other
      · simp [set, get?, hkey, hlt, hne]
      · simp [set, get?, hkey, hlt, ih]

section Members

variable {k : String}

/-- Members with other keys change nothing. -/
theorem get?_foldl_of_not_mem {members : List (String × Json)} (h : k ∉ members.map Prod.fst)
    (r : Record) : get? k (members.foldl (fun r m => set m.1 m.2 r) r) = get? k r := by
  induction members generalizing r with
  | nil => rfl
  | cons m rest ih =>
    simp only [List.map_cons, List.mem_cons, not_or] at h
    rw [List.foldl_cons, ih h.2, get?_set_of_ne fun he => h.1 he.symm]

/-- The last member of a key counts. -/
theorem get?_ofMembers_of_last {before after : List (String × Json)} {v : Json}
    (h : k ∉ after.map Prod.fst) : get? k (ofMembers (before ++ (k, v) :: after)) = some v := by
  rw [ofMembers, List.foldl_append, List.foldl_cons, get?_foldl_of_not_mem h, get?_set_self]

/-- Where a member of the key follows, a member before it does not count. -/
theorem get?_ofMembers_of_mem {before after : List (String × Json)} {v : Json}
    (h : k ∈ after.map Prod.fst) (hafter : ∀ m ∈ after, m.2 = v) :
    get? k (ofMembers (before ++ after)) = some v := by
  rw [ofMembers, List.foldl_append]
  generalize before.foldl (fun r m => set m.1 m.2 r) empty = r
  induction after generalizing r with
  | nil => simp at h
  | cons m rest ih =>
    obtain ⟨key, value⟩ := m
    have hvalue : value = v := hafter _ (List.mem_cons_self ..)
    by_cases hrest : k ∈ rest.map Prod.fst
    · exact ih hrest (fun x hx => hafter x (List.mem_cons_of_mem _ hx)) _
    · have hkey : k = key := by simpa [hrest] using h
      rw [List.foldl_cons, get?_foldl_of_not_mem hrest, hkey, get?_set_self, hvalue]

end Members

end Record

end EntityStore
