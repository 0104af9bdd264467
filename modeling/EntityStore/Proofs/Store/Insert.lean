import EntityStore.Store.Write

/-!
An insert and the links of its record. The recursion hands the ways to link the values of a record
down by their keys; each entry of a relation is linked as `addRelation` links its value.
-/
namespace EntityStore

theorem Record.mem_of_get? {key : String} {record : Record} {v : Json}
    (h : get? key record = some v) : (key, v) ∈ record := by
  induction record with
  | nil => cases h
  | cons m rest ih =>
    obtain ⟨k, w⟩ := m
    rw [get?] at h
    split at h
    · next hkey =>
      cases h
      exact hkey ▸ List.mem_cons_self ..
    · exact List.mem_cons_of_mem _ (ih h)

/-- The value of an entry is that of the record under the name of the field. -/
theorem Schema.get?_of_mem_entries {s : Schema} {value : Record} {e : Entry}
    (h : e ∈ s.entries value) : Record.get? e.1.name value = some e.2 := by
  obtain ⟨f, -, he⟩ := List.mem_filterMap.mp h
  obtain ⟨v, hv, rfl⟩ := Option.map_eq_some_iff.mp he
  exact hv

namespace Store

theorem lookup_linksOf (r : Registry) (key : String) (value : Record) :
    (linksOf r value).lookup key = (Record.get? key value).map (link r) := by
  induction value with
  | nil => rw [linksOf]; rfl
  | cons m rest ih =>
    obtain ⟨k, v⟩ := m
    rw [linksOf, Record.get?]
    by_cases hkey : k = key
    · simp [hkey]
    · have hne : (key == k) = false := by simpa using fun h : key = k => hkey h.symm
      simp [List.lookup_cons, hne, hkey, ih]

def insertWrites (r : Registry) (s : Schema) (model : String) (id : Json) (value : Record) :
    List (Run Unit) :=
  (s.relationEntries value).map (fun e => addRelation r model id e.1.name e.2) ++
    ownedWrites r s id value

theorem insertMembers_eq (r : Registry) (value : Record) (model : String) :
    insertMembers r value model = Run.within .insert (do
      let s ← Run.ofExcept (r.require model)
      let id ← insertRow s value
      Run.inOrder (insertWrites r s model id value)
      findByKey r model id {}) := by
  rw [insertMembers]
  refine congrArg (Run.within .insert) ?_
  refine bind_congr fun s => bind_congr fun id => ?_
  -- The two differ in how an entry of a relation is linked, and in nothing else.
  refine congrArg (fun links =>
    Run.inOrder (links ++ ownedWrites r s id value) >>= fun _ => findByKey r model id {})
    (List.map_congr_left fun e he => ?_)
  rw [lookup_linksOf, Schema.get?_of_mem_entries (List.mem_filter.mp he).1]
  rfl

end Store

end EntityStore
