import EntityStore.Proofs.Json.Basic
import Mathlib.Data.String.Basic

/-!
The canonical form of values: members in the order of their keys, each key once, and no double that
is not finite. Every value is brought into this form, and a value that has it stays as it is.
-/
namespace EntityStore

def Record.IsOrdered (r : Record) : Prop :=
  (r.map Prod.fst).Pairwise (· < ·)

inductive Json.IsCanonical : Json → Prop
  | null : IsCanonical .null
  | bool (b : Bool) : IsCanonical (.bool b)
  | int (n : Int) : IsCanonical (.num (.int n))
  | float {x : Float} : x.isFinite = true → IsCanonical (.num (.float x))
  | str (s : String) : IsCanonical (.str s)
  | arr {items : List Json} : (∀ v ∈ items, IsCanonical v) → IsCanonical (.arr items)
  | obj {members : Record} : members.IsOrdered → (∀ m ∈ members, IsCanonical m.2) →
    IsCanonical (.obj members)

namespace Record

variable {key : String} {value : Json} {r : Record} {m : String × Json}

section Set

theorem mem_set (h : m ∈ set key value r) : m = (key, value) ∨ m ∈ r := by
  induction r with
  | nil => exact .inl (List.mem_singleton.mp h)
  | cons first rest ih =>
    obtain ⟨k, v⟩ := first
    unfold set at h
    split at h
    · rcases List.mem_cons.mp h with hm | hm
      · exact .inl hm
      · exact .inr (List.mem_cons_of_mem _ hm)
    · split at h
      · exact List.mem_cons.mp h
      · rcases List.mem_cons.mp h with rfl | hm
        · exact .inr (List.mem_cons_self ..)
        · rcases ih hm with hm | hm
          · exact .inl hm
          · exact .inr (List.mem_cons_of_mem _ hm)

theorem IsOrdered.set (h : r.IsOrdered) (key : String) (value : Json) :
    (Record.set key value r).IsOrdered := by
  induction r with
  | nil => exact List.pairwise_singleton ..
  | cons first rest ih =>
    obtain ⟨k, v⟩ := first
    obtain ⟨hfirst, hrest⟩ := List.pairwise_cons.mp h
    by_cases hkey : key = k
    · subst hkey
      rw [Record.set, if_pos rfl]
      exact h
    · by_cases hlt : key < k
      · rw [Record.set, if_neg hkey, if_pos hlt]
        refine List.pairwise_cons.mpr ⟨?_, h⟩
        intro other hother
        rcases List.mem_cons.mp hother with rfl | hmem
        · exact hlt
        · exact lt_trans hlt (hfirst other hmem)
      · rw [Record.set, if_neg hkey, if_neg hlt]
        refine List.pairwise_cons.mpr ⟨?_, ih hrest⟩
        intro other hother
        obtain ⟨m, hm, rfl⟩ := List.mem_map.mp hother
        rcases mem_set hm with rfl | hmem
        · exact lt_of_le_of_ne (not_lt.mp hlt) (Ne.symm hkey)
        · exact hfirst m.1 (List.mem_map_of_mem hmem)

/-- A key behind all others is set at the end. -/
theorem set_eq_append (h : ∀ m ∈ r, m.1 < key) : set key value r = r ++ [(key, value)] := by
  induction r with
  | nil => rfl
  | cons first rest ih =>
    obtain ⟨k, v⟩ := first
    obtain ⟨hfirst, hrest⟩ := List.forall_mem_cons.mp h
    have hne : key ≠ k := fun he => lt_irrefl k (he ▸ hfirst)
    have hnot : ¬ key < k := fun hlt => lt_irrefl k (lt_trans hfirst hlt)
    rw [set, if_neg hne, if_neg hnot, ih hrest, List.cons_append]

end Set

section Members

variable {members : List (String × Json)}

private theorem mem_foldl_set (h : m ∈ members.foldl (fun r m => set m.1 m.2 r) r) :
    m ∈ r ∨ m ∈ members := by
  induction members generalizing r with
  | nil => exact .inl h
  | cons first rest ih =>
    rcases ih h with hset | hrest
    · rcases mem_set hset with rfl | hr
      · exact .inr (List.mem_cons_self ..)
      · exact .inl hr
    · exact .inr (List.mem_cons_of_mem _ hrest)

theorem mem_ofMembers (h : m ∈ ofMembers members) : m ∈ members := by
  rcases mem_foldl_set h with hempty | hmem
  · cases hempty
  · exact hmem

theorem isOrdered_ofMembers (members : List (String × Json)) : (ofMembers members).IsOrdered := by
  have hfold : ∀ r : Record, r.IsOrdered →
      Record.IsOrdered (members.foldl (fun r m => set m.1 m.2 r) r) := by
    induction members with
    | nil => exact fun r hr => hr
    | cons first rest ih => exact fun r hr => ih _ (hr.set first.1 first.2)
  exact hfold empty List.Pairwise.nil

private theorem foldl_set_of_isOrdered {before after : Record}
    (h : Record.IsOrdered (before ++ after)) :
    after.foldl (fun r m => set m.1 m.2 r) before = before ++ after := by
  induction after generalizing before with
  | nil => exact (List.append_nil before).symm
  | cons m rest ih =>
    have hlast : ∀ x ∈ before, x.1 < m.1 := by
      rw [IsOrdered, List.map_append, List.map_cons, List.pairwise_append] at h
      intro x hx
      exact h.2.2 x.1 (List.mem_map_of_mem hx) m.1 (List.mem_cons_self ..)
    have hmoved : before ++ m :: rest = before ++ [m] ++ rest := List.append_cons before m rest
    rw [List.foldl_cons, set_eq_append hlast, hmoved]
    exact ih (hmoved ▸ h)

/-- Members that are in order stay as they are. -/
theorem IsOrdered.ofMembers_eq (h : r.IsOrdered) : ofMembers r = r := by
  have hall : Record.IsOrdered ([] ++ r) := h
  exact foldl_set_of_isOrdered hall

end Members

end Record

namespace Json

theorem canonicalItems_eq_map (items : List Json) :
    canonicalItems items = items.map canonical := by
  induction items with
  | nil => rfl
  | cons v rest ih => rw [canonicalItems, ih, List.map_cons]

theorem canonicalMembers_eq_map (members : List (String × Json)) :
    canonicalMembers members = members.map fun m => (m.1, m.2.canonical) := by
  induction members with
  | nil => rfl
  | cons m rest ih => rw [canonicalMembers, ih, List.map_cons]

theorem isCanonical_ofFloat (x : Float) : (ofFloat x).IsCanonical := by
  unfold ofFloat
  split
  · next hfinite => exact .float hfinite
  · exact .null

theorem isCanonical_canonical (v : Json) : v.canonical.IsCanonical := by
  induction v using Json.induction with
  | null => exact .null
  | bool b => exact .bool b
  | num n =>
    cases n with
    | int n => exact .int n
    | float x => exact isCanonical_ofFloat x
  | str s => exact .str s
  | arr items ih =>
    rw [canonical, canonicalItems_eq_map]
    refine .arr fun v hv => ?_
    obtain ⟨item, hitem, rfl⟩ := List.mem_map.mp hv
    exact ih item hitem
  | obj members ih =>
    rw [canonical, canonicalMembers_eq_map]
    refine .obj (Record.isOrdered_ofMembers _) fun m hm => ?_
    obtain ⟨member, hmember, rfl⟩ := List.mem_map.mp (Record.mem_ofMembers hm)
    exact ih member hmember

/-- A value in canonical form stays as it is. -/
theorem IsCanonical.canonical_eq {v : Json} (h : v.IsCanonical) : v.canonical = v := by
  induction h with
  | null | bool | int | str => rfl
  | float hfinite => rw [canonical, ofFloat, if_pos hfinite]
  | @arr items _ ih =>
    have hitems : items.map canonical = items := calc
      items.map canonical = items.map id := List.map_congr_left ih
      _ = items := List.map_id items
    rw [canonical, canonicalItems_eq_map, hitems]
  | @obj members hordered _ ih =>
    have hmembers : (members.map fun m => (m.1, m.2.canonical)) = members := calc
      (members.map fun m => (m.1, m.2.canonical)) = members.map id :=
        List.map_congr_left fun m hm => congrArg (Prod.mk m.1) (ih m hm)
      _ = members := List.map_id members
    rw [canonical, canonicalMembers_eq_map, hmembers, hordered.ofMembers_eq]

end Json

end EntityStore
