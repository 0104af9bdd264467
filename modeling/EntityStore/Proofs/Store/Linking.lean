import EntityStore.Proofs.Store.Accepts
import EntityStore.Proofs.Store.Failures
import EntityStore.Proofs.Store.Write

/-!
Linking a value, seen from outside. A value is checked before anything is sent for it. One that does
not pass is refused and nothing is sent; one that does is either linked without any further refusal,
or a row has been written for it.
-/
namespace EntityStore

def Command.writesRows : Command → Bool
  | insertDefaults .. | insert .. | update .. | delete .. => true
  | _ => false

namespace Store

open Run

variable {r : Registry}

section Inserting

theorem emits_insertRow (s : Schema) (value : Record) :
    ∃ c, c.writesRows = true ∧ Emits c (insertRow s value) := by
  refine ⟨_, ?_, (emits_send _).bind (P := fun _ => True) fun result => ?_⟩
  · split <;> rfl
  · split
    · exact sends_pure _
    · split
      · exact sends_fail _
      · exact sends_pure _
    · exact sends_fail _

/-- The row of a record is inserted before anything else is done with the record. -/
theorem emits_insertMembers {model : String} {s : Schema} (hs : r.schema? model = some s)
    (value : Record) :
    ∃ c, c.writesRows = true ∧ Emits c (insertMembers r value model) := by
  obtain ⟨c, hc, hemits⟩ := emits_insertRow s value
  refine ⟨c, hc, ?_⟩
  have hrequired := Registry.require_eq_ok.mpr hs
  have hname := Registry.schema?_name hs
  subst hname
  rw [insertMembers_eq, hrequired, ofExcept_ok_bind]
  refine Emits.within (hemits.bind (P := r.Admits) fun id => ?_) .insert
  exact (sends_inOrder (sends_insertWrites r hs id value)).bind fun _ => sends_findByKey r _ id {}

end Inserting

section Linking

def linkedItems (f : Field) : Json → List Json
  | .arr items => if f.isReference then [.arr items] else items
  | value => [value]

/-- What linking a value checks before it sends anything: the field, and for each related value
whether it has a key, or can be inserted as an object of a weak relation. -/
def linkCheck (r : Registry) (model field : String) : Json → Except Failure Unit
  | .null => .ok ()
  | value => do
    let (f, relation) ← relationField r model field
    let _ ← relatedParts relation (r.primaryKey relation.model) f.name (linkedItems f value)
    .ok ()

theorem relatedParts_singleton (relation : Relation) (key field : String) (v : Json) :
    relatedParts relation key field [v] = relatedPart relation key field v := by
  simp only [relatedParts, bind, Except.bind]
  cases relatedPart relation key field v with
  | error g => rfl
  | ok parts => simp

theorem relationField_of_field? {model field : String} {s : Schema} {f : Field}
    {relation : Relation} (hs : r.schema? model = some s) (hf : s.field? field = some f)
    (hrelation : f.kind.relation? = some relation) :
    relationField r model field = .ok (f, relation) := by
  simp only [relationField, Registry.require_eq_ok.mpr hs, hf, hrelation, bind, Except.bind]

/-- Relations lead to models of the registry. -/
theorem exists_target {model field : String} {f : Field} {relation : Relation}
    (hfound : relationField r model field = .ok (f, relation)) :
    ∃ t, r.schema? relation.model = some t := by
  obtain ⟨s, hs, hf, -, hrelation⟩ := relationField_eq_ok hfound
  exact r.exists_related (Registry.schema?_mem hs) hf hrelation

variable {model field : String} {f : Field} {relation : Relation} {value : Json}

/-- The values of a table of links are checked as they are given. -/
theorem relatedKeys_of_links (hlinks : ¬ f.isReference = true) :
    relatedKeys r relation f.name value = (do
      let key := r.primaryKey relation.model
      let parts ← Run.ofExcept (relatedParts relation key f.name (linkedItems f value))
      if parts.fresh.isEmpty then pure parts.keys
      else do
        let inserted ← insertAll r relation.model parts.fresh
        pure (parts.keys ++ inserted.filterMap (Record.get? key))) := by
  cases value <;> simp [relatedKeys, linkedItems, hlinks]

theorem linkCheck_eq (hnull : value ≠ .null) :
    linkCheck r model field value = (do
      let (f, relation) ← relationField r model field
      let _ ← relatedParts relation (r.primaryKey relation.model) f.name (linkedItems f value)
      .ok ()) := by
  rw [linkCheck]
  exact hnull

/-- What a value that has been checked is linked by. -/
theorem accepts_links (hfound : relationField r model field = .ok (f, relation))
    (hlinks : ¬ f.isReference = true) {parts : RelatedParts}
    (hparts : relatedParts relation (r.primaryKey relation.model) f.name (linkedItems f value) =
      .ok parts) (join : JoinTable) (owner : Json) :
    Accepts (do
      let ids ← relatedKeys r relation f.name value
      insertLinks join owner ids) := by
  obtain ⟨t, ht⟩ := exists_target hfound
  rw [relatedKeys_of_links hlinks]
  refine Accepts.bind ?_ fun ids => accepts_insertLinks join owner ids
  refine accepts_ofExcept_bind hparts ?_
  split
  · exact accepts_pure _
  · exact (accepts_insertAll ht _).bind fun _ => accepts_pure _

/-- The one value of a reference is checked, an array too. -/
theorem relatedParts_of_reference (hreference : f.isReference = true) (key : String) :
    relatedParts relation key f.name (linkedItems f value) =
      relatedPart relation key f.name value := by
  rw [← relatedParts_singleton]
  cases value <;> simp [linkedItems, hreference]

theorem relatedPart_plain (hnull : value ≠ .null) (hobj : ∀ members, value ≠ .obj members)
    (key : String) : relatedPart relation key field value =
      if value.isKey then .ok { keys := [value] } else .error (invalidRelated field) := by
  rw [relatedPart]
  · exact hnull
  · exact hobj

def freshKey (r : Registry) (relation : Relation) (field : String) (value : Json) : Run Json :=
  match value with
  | .obj members => do
    let rows ← insertMembers r members relation.model
    storedKey relation (r.primaryKey relation.model) field rows
  | _ => Run.fail (invalidRelated field)

/-- What links a value that is not null through a field of relations: a reference is set to the key
that the value has, or else to that of a new row. -/
def linkThrough (r : Registry) (model : String) (owner value : Json) (found : Field × Relation) :
    Run Unit :=
  let (f, relation) := found
  if f.isReference then do
    let parts ← Run.ofExcept (relatedPart relation (r.primaryKey relation.model) f.name value)
    let id ← match parts.keys with
      | id :: _ => pure id
      | [] => freshKey r relation f.name value
    setReference r model owner f.name id
  else do
    let ids ← relatedKeys r relation f.name value
    insertLinks (JoinTable.of model f.name relation.model) owner ids

/-- Objects and other values are linked alike: those that have no key of their own are inserted. -/
theorem link_eq (hnull : value ≠ .null) (model field : String) (owner : Json) :
    link r value model owner field =
      Run.ofExcept (relationField r model field) >>= linkThrough r model owner value := by
  by_cases hobj : ∃ members, value = .obj members
  · obtain ⟨members, rfl⟩ := hobj
    rw [link]
    refine bind_congr fun found => ?_
    unfold linkThrough
    dsimp only
    split
    · refine bind_congr fun parts => ?_
      obtain ⟨_ | ⟨id, rest⟩, fresh⟩ := parts
      · exact (bind_assoc _ _ _).symm
      · rfl
    · rfl
  · have hobj : ∀ members, value ≠ .obj members := fun members h => hobj ⟨members, h⟩
    rw [link]
    · refine bind_congr fun found => ?_
      unfold linkThrough
      dsimp only
      rw [relatedPart_plain hnull hobj]
      split
      · split <;> rfl
      · rfl
    · exact hnull
    · exact hobj

theorem link_of_reference (hnull : value ≠ .null)
    (hfound : relationField r model field = .ok (f, relation)) (hreference : f.isReference = true)
    {parts : RelatedParts}
    (hparts : relatedPart relation (r.primaryKey relation.model) f.name value = .ok parts)
    (owner : Json) : link r value model owner field = (do
      let id ← match parts.keys with
        | id :: _ => pure id
        | [] => freshKey r relation f.name value
      setReference r model owner f.name id) := by
  rw [link_eq hnull, hfound, ofExcept_ok_bind, linkThrough]
  dsimp only
  rw [if_pos hreference, hparts, ofExcept_ok_bind]

theorem link_of_links (hnull : value ≠ .null)
    (hfound : relationField r model field = .ok (f, relation)) (hlinks : ¬ f.isReference = true)
    (owner : Json) : link r value model owner field = (do
      let ids ← relatedKeys r relation f.name value
      insertLinks (JoinTable.of model f.name relation.model) owner ids) := by
  rw [link_eq hnull, hfound, ofExcept_ok_bind, linkThrough]
  exact if_neg hlinks

/-- A value that is refused at sight is not linked, and nothing is sent for it. -/
theorem link_of_check_error {g : Failure} (h : linkCheck r model field value = .error g)
    (owner : Json) (session : Session) :
    link r value model owner field session = (.error g, session) := by
  have hnull : value ≠ .null := by
    rintro rfl
    cases h
  rw [linkCheck_eq hnull] at h
  rw [link_eq hnull]
  rcases bind_eq_error.mp h with hfound | ⟨⟨f, relation⟩, hfound, hchecked⟩
  · rw [hfound]
    rfl
  · rw [hfound, ofExcept_ok_bind, linkThrough]
    rcases bind_eq_error.mp hchecked with hparts | ⟨_, _, hok⟩
    · dsimp only
      split
      · next hreference =>
        rw [relatedParts_of_reference hreference] at hparts
        rw [hparts]
        rfl
      · next hlinks =>
        rw [relatedKeys_of_links hlinks]
        dsimp only
        rw [hparts]
        rfl
    · cases hok

theorem bind_of_linkCheck_ok (hnull : value ≠ .null) (h : linkCheck r model field value = .ok ()) :
    ∃ f relation, relationField r model field = .ok (f, relation) ∧
      ∃ parts, relatedParts relation (r.primaryKey relation.model) f.name (linkedItems f value) =
        .ok parts := by
  rw [linkCheck_eq hnull] at h
  obtain ⟨⟨f, relation⟩, hfound, hchecked⟩ := bind_eq_ok.mp h
  obtain ⟨parts, hparts, -⟩ := bind_eq_ok.mp hchecked
  exact ⟨f, relation, hfound, parts, hparts⟩

/-- For a reference that passes its check a column is set, or a new row inserted before. -/
theorem emits_link_of_reference (hnull : value ≠ .null)
    (hfound : relationField r model field = .ok (f, relation)) (hreference : f.isReference = true)
    {parts : RelatedParts}
    (hparts : relatedParts relation (r.primaryKey relation.model) f.name (linkedItems f value) =
      .ok parts) (owner : Json) :
    ∃ c, c.writesRows = true ∧ Emits c (link r value model owner field) := by
  rw [relatedParts_of_reference hreference] at hparts
  rw [link_of_reference hnull hfound hreference hparts]
  cases hkeys : parts.keys with
  | cons id rest => exact ⟨_, rfl, (emits_send _).bind fun _ => sends_pure (P := r.Admits) ()⟩
  | nil =>
    -- only an object is let through without a key
    by_cases hobj : ∃ members, value = .obj members
    · obtain ⟨members, rfl⟩ := hobj
      obtain ⟨t, ht⟩ := exists_target hfound
      obtain ⟨c, hc, hemits⟩ := emits_insertMembers ht members
      have hset := (sends_linked hfound owner).1 hreference
      refine ⟨c, hc, Emits.bind (P := r.Admits) ?_ hset⟩
      exact hemits.bind fun rows => sends_storedKey (P := r.Admits) _ _ _ rows
    · rw [relatedPart_plain hnull fun members h => hobj ⟨members, h⟩] at hparts
      split at hparts
      · cases hparts
        cases hkeys
      · cases hparts

/-- A value that passes its check is linked without refusal, or something is written for it. -/
theorem link_of_check_ok (h : linkCheck r model field value = .ok ()) (owner : Json) :
    Accepts (link r value model owner field) ∨
      ∃ c, c.writesRows = true ∧ Emits c (link r value model owner field) := by
  by_cases hnull : value = .null
  · subst hnull
    rw [link]
    exact .inl (accepts_pure ())
  · obtain ⟨f, relation, hfound, parts, hparts⟩ := bind_of_linkCheck_ok hnull h
    by_cases hreference : f.isReference = true
    · exact .inr (emits_link_of_reference hnull hfound hreference hparts owner)
    · rw [link_of_links hnull hfound hreference]
      exact .inl (accepts_links hfound hreference hparts _ owner)

theorem isRefusal_of_linkCheck {g : Failure} (h : linkCheck r model field value = .error g) :
    g.IsRefusal := by
  unfold linkCheck at h
  split at h
  · cases h
  · rcases bind_eq_error.mp h with hfound | ⟨found, -, hparts⟩
    · exact isRefusal_of_relationField hfound
    · rcases bind_eq_error.mp hparts with hparts | ⟨_, _, hok⟩
      · exact isRefusal_of_relatedParts hparts
      · cases hok

end Linking

end Store

end EntityStore
