import EntityStore.Proofs.Json.Basic
import EntityStore.Proofs.Store.Insert
import EntityStore.Proofs.Store.Read

/-!
Writing sends admitted commands. Inserts and links call each other as deeply as the values are
nested; the induction is on the value that is linked.
-/
namespace EntityStore

open Run

section Entries

variable {r : Registry} {s : Schema} {value : Record} {e : Entry}

theorem Schema.mem_entries_fields (h : e ∈ s.entries value) : e.1 ∈ s.fields := by
  obtain ⟨f, hf, he⟩ := List.mem_filterMap.mp h
  obtain ⟨v, -, rfl⟩ := Option.map_eq_some_iff.mp he
  exact hf

/-- Scalars that are not localized are held in the own table. -/
theorem Registry.holds_scalar (hs : s ∈ r.schemas) (h : e ∈ s.scalarEntries value) :
    r.Holds s.name e.1.name := by
  obtain ⟨hentry, hkind⟩ := List.mem_filter.mp h
  have hf := Schema.mem_entries_fields hentry
  simp only [Bool.and_eq_true, Bool.not_eq_true'] at hkind
  have hcolumn : e.1.hasColumn = true := by
    have hne := Field.kind_ne_scalar_relation (r.checkField_eq_ok hs hf)
    obtain ⟨hscalar, -⟩ := hkind
    unfold Field.isScalar at hscalar
    unfold Field.hasColumn
    split at hscalar
    · next t ht =>
      rw [ht] at hne
      simpa [ht] using hne
    · cases hscalar
  exact .own hs (Schema.mem_ownFields.mpr ⟨hf, hcolumn, hkind.2⟩)

theorem Schema.mem_localizedFields_of_entry (h : e ∈ s.localizedEntries value) :
    e.1 ∈ s.localizedFields := by
  obtain ⟨hentry, hlocalized⟩ := List.mem_filter.mp h
  exact mem_localizedFields.mpr ⟨mem_entries_fields hentry, hlocalized⟩

/-- The key of a registered model. -/
theorem Registry.holds_primaryKey {model : String} (hs : r.schema? model = some s) :
    r.Holds model (r.primaryKey model) := by
  have hname := schema?_name hs
  subst hname
  rw [primaryKey, hs]
  exact .key (schema?_mem hs)

end Entries

namespace Store

variable {r : Registry}

/-- A relation field that is found is one of its model. -/
theorem relationField_eq_ok {model field : String} {f : Field} {relation : Relation}
    (h : relationField r model field = .ok (f, relation)) :
    ∃ s, r.schema? model = some s ∧ f ∈ s.fields ∧ f.name = field ∧
      f.kind.relation? = some relation := by
  obtain ⟨s, hs, hfound⟩ := bind_eq_ok.mp h
  split at hfound
  · cases hfound
  · next g hg =>
    split at hfound
    · cases hfound
    · next found hrelation =>
      cases hfound
      exact ⟨s, Registry.require_eq_ok.mp hs, Schema.field?_mem hg, Query.field?_name hg, hrelation⟩

/-- A relation that is no reference is kept in a table of links. -/
theorem kind_of_not_isReference {f : Field} {relation : Relation}
    (h : f.kind.relation? = some relation) (hno : ¬ f.isReference = true) :
    f.kind = .manyToMany relation := by
  unfold Field.isReference at hno
  cases hkind : f.kind <;> rw [hkind] at h hno <;>
    simp_all [FieldKind.relation?, FieldKind.reference?]

/-- The columns of the table of links that a relation field has. -/
theorem holds_join {model : String} {s : Schema} (hs : r.schema? model = some s) {f : Field}
    (hf : f ∈ s.fields) {relation : Relation} (hkind : f.kind = .manyToMany relation) :
    r.HoldsAll (JoinTable.of model f.name relation.model).name
      [(JoinTable.of model f.name relation.model).owner,
        (JoinTable.of model f.name relation.model).related] := by
  have hname := Registry.schema?_name hs
  subst hname
  obtain ⟨howner, hrelated, -⟩ := Registry.holds_links (Registry.schema?_mem hs) hf hkind
  exact ⟨⟨_, howner⟩, by simp [howner, hrelated]⟩

theorem holds_assignments {table : String} {entries : List Entry}
    (h : ∀ e ∈ entries, r.Holds table e.1.name) :
    ∀ a ∈ assignments entries, r.Holds table a.column := by
  intro a ha
  obtain ⟨e, he, rfl⟩ := List.mem_map.mp ha
  exact h e he

theorem sends_setReference {model : String} {s : Schema} (hs : r.schema? model = some s)
    (owner : Json) {field : String} (hfield : r.Holds model field) (id : Json) :
    Sends r.Admits (setReference r model owner field id) := by
  refine (sends_send ?_).bind fun _ => sends_pure _
  exact .updateRow (Registry.holds_primaryKey hs) (List.forall_mem_singleton.mpr hfield)

theorem sends_insertLinks {join : JoinTable} (h : r.HoldsAll join.name [join.owner, join.related])
    (owner : Json) (ids : List Json) : Sends r.Admits (insertLinks join owner ids) := by
  unfold insertLinks
  split
  · exact sends_pure _
  · refine (sends_send (.insert _ ?_)).bind fun _ => sends_pure _
    simpa using h

/-- A list is deleted from its table and inserted anew. -/
theorem sends_updateList {P : Command → Prop} (model : String) (owner : Json) (field : String)
    (values : Json)
    (hdelete : ∀ p, P (.delete (Schema.listTable model field) [.equals Schema.listOwner p]))
    (hinsert : ∀ rows, P (.insert (Schema.listTable model field)
      [Schema.listOwner, Schema.listValue] rows none)) :
    Sends P (updateList model owner field values) := by
  refine (sends_send (hdelete _)).bind fun _ => ?_
  dsimp only
  split
  · exact sends_pure _
  · exact (sends_send (hinsert _)).bind fun _ => sends_pure _

theorem sends_updateList_of_isList {s : Schema} (hs : s ∈ r.schemas) {f : Field}
    (hf : f ∈ s.fields) (hlist : f.isList = true) (owner values : Json) :
    Sends r.Admits (updateList s.name owner f.name values) := by
  obtain ⟨howner, hvalue, -⟩ := Registry.holds_list hs hf hlist
  refine sends_updateList _ _ _ _ (fun p => ?_) fun rows => ?_
  · exact .deleteRow howner
  · exact .insert rows ⟨⟨_, howner⟩, by simp [howner, hvalue]⟩

theorem sends_writeLocalized {s : Schema} (hs : r.schema? s.name = some s) (id : Json)
    {entries : List Entry} (hne : entries ≠ [])
    (hentries : ∀ e ∈ entries, e.1 ∈ s.localizedFields) :
    Sends r.Admits (writeLocalized r s.name id entries) := by
  have hmem := Registry.schema?_mem hs
  obtain ⟨first, rest, rfl⟩ := List.exists_cons_of_ne_nil hne
  have hkey : r.Holds (Schema.localizedTable s.name) (r.primaryKey s.name) := by
    rw [Registry.primaryKey, hs]
    exact .localizedKey hmem (hentries first (List.mem_cons_self ..))
  have hfields : ∀ e ∈ first :: rest, r.Holds (Schema.localizedTable s.name) e.1.name :=
    fun e he => .localized hmem (hentries e he)
  refine (sends_send (.lookup ⟨⟨_, hkey⟩, by simp [RowMatch.column, hkey]⟩)).bind fun found => ?_
  refine (sends_send ?_).bind fun _ => sends_pure _
  split
  · refine .insert _ ⟨⟨_, hkey⟩, ?_⟩
    intro column hcolumn
    simp only [Option.toList_none, List.append_nil, List.mem_cons, List.mem_map] at hcolumn
    rcases hcolumn with rfl | ⟨e, he, rfl⟩
    · exact hkey
    · exact hfields e (List.mem_cons.mpr he)
  · exact .updateRow hkey (holds_assignments hfields)

theorem sends_insertEmpty {model key : String} (h : r.Holds model key) (n : Nat) :
    Sends r.Admits (insertEmpty model key n) := by
  induction n with
  | zero => exact sends_pure _
  | succ n ih =>
    refine (sends_send (.insertDefaults h)).bind fun result => ?_
    exact ih.bind fun others => sends_pure _

theorem sends_insertAll (model : String) (values : List Record) :
    Sends r.Admits (insertAll r model values) := by
  refine Sends.within ?_ .insert
  refine sends_ofExcept_bind fun s hrequired => ?_
  obtain ⟨hs, rfl⟩ := Registry.require_named hrequired
  have hmem := Registry.schema?_mem hs
  split
  · exact sends_pure _
  · dsimp only
    split
    · exact (sends_insertEmpty (.key hmem) _).bind fun keys => sends_findByKeys r _ keys
    · have hkey := Registry.Holds.key hmem
      refine (sends_send (.insert _ ⟨⟨_, hkey⟩, ?_⟩)).bind fun result => sends_findByKeys r _ _
      refine List.forall_mem_append.mpr ⟨?_, List.forall_mem_singleton.mpr hkey⟩
      intro column hcolumn
      obtain ⟨f, hf, rfl⟩ := List.mem_map.mp hcolumn
      exact .own hmem (List.mem_of_mem_filter (List.mem_of_mem_filter hf))

theorem sends_relatedKeys (relation : Relation) (field : String) (value : Json) :
    Sends r.Admits (relatedKeys r relation field value) := by
  refine (sends_ofExcept _).bind fun parts => ?_
  split
  · exact sends_pure _
  · exact (sends_insertAll _ _).bind fun inserted => sends_pure _

theorem sends_insertRow {s : Schema} (hs : s ∈ r.schemas) (value : Record) :
    Sends r.Admits (insertRow s value) := by
  have hkey := Registry.Holds.key hs
  refine (sends_send ?_).bind fun result => ?_
  · split
    · exact .insertDefaults hkey
    · refine .insert _ ⟨⟨_, hkey⟩, ?_⟩
      refine List.forall_mem_append.mpr ⟨?_, List.forall_mem_singleton.mpr hkey⟩
      intro column hcolumn
      obtain ⟨e, he, rfl⟩ := List.mem_map.mp hcolumn
      exact Registry.holds_scalar hs (List.mem_of_mem_filter he)
  · split
    · exact sends_pure _
    · split
      · exact sends_fail _
      · exact sends_pure _
    · exact sends_fail _

theorem sends_ownedWrites {s : Schema} (hs : r.schema? s.name = some s) (id : Json)
    (value : Record) : ∀ m ∈ ownedWrites r s id value, Sends r.Admits m := by
  intro m hm
  rcases List.mem_append.mp hm with hlist | hlocalized
  · obtain ⟨e, he, rfl⟩ := List.mem_map.mp hlist
    obtain ⟨hentry, hkind⟩ := List.mem_filter.mp he
    exact sends_updateList_of_isList (Registry.schema?_mem hs) (Schema.mem_entries_fields hentry)
      hkind id e.2
  · split at hlocalized
    · cases hlocalized
    · next hne =>
      rw [List.mem_singleton.mp hlocalized]
      exact sends_writeLocalized hs id (by simpa using hne) fun e he =>
        Schema.mem_localizedFields_of_entry he

theorem sends_storedKey {P : Command → Prop} (relation : Relation) (key field : String)
    (rows : List Record) : Sends P (storedKey relation key field rows) := by
  unfold storedKey
  split
  · exact sends_pure _
  · exact sends_fail _

/-- A reference is set, and any other relation kept as links, where its field is found. -/
theorem sends_linked {model field : String} {f : Field} {relation : Relation}
    (hfound : relationField r model field = .ok (f, relation)) (owner : Json) :
    (f.isReference = true → ∀ id, Sends r.Admits (setReference r model owner f.name id)) ∧
    (¬ f.isReference = true → ∀ value, Sends r.Admits (do
      let ids ← relatedKeys r relation f.name value
      insertLinks (JoinTable.of model f.name relation.model) owner ids)) := by
  obtain ⟨s, hs, hf, -, hrelation⟩ := relationField_eq_ok hfound
  refine ⟨fun hreference id => ?_, fun hno value => ?_⟩
  · have hname := Registry.schema?_name hs
    have hfield := Registry.holds_reference (Registry.schema?_mem hs) hf hreference
    exact sends_setReference hs owner (hname ▸ hfield) id
  · have hjoin := holds_join hs hf (kind_of_not_isReference hrelation hno)
    exact (sends_relatedKeys _ _ _).bind fun ids => sends_insertLinks hjoin owner ids

/-- Any other value is a key, or an array of related values. -/
private theorem sends_link_plain {value : Json} (hnull : value ≠ .null)
    (hobj : ∀ members, value ≠ .obj members) (model : String) (owner : Json) (field : String) :
    Sends r.Admits (link r value model owner field) := by
  rw [link]
  · refine sends_ofExcept_bind fun found hfound => ?_
    obtain ⟨f, relation⟩ := found
    obtain ⟨hset, hlinks⟩ := sends_linked hfound owner
    dsimp only
    split
    · next hreference =>
      split
      · exact hset hreference value
      · exact sends_fail _
    · next hno => exact hlinks hno value
  · exact hnull
  · exact hobj

/-- What follows the row of an insert sends what linking the values of the record sends. -/
private theorem sends_insertWrites_of_links {value : Record}
    (hvalues : ∀ m ∈ value, ∀ model owner field, Sends r.Admits (link r m.2 model owner field))
    {s : Schema} (hs : r.schema? s.name = some s) (id : Json) :
    ∀ m ∈ insertWrites r s s.name id value, Sends r.Admits m := by
  intro m hm
  rcases List.mem_append.mp hm with hrelation | howned
  · obtain ⟨e, he, rfl⟩ := List.mem_map.mp hrelation
    have hmember := Record.mem_of_get? (Schema.get?_of_mem_entries (List.mem_of_mem_filter he))
    exact hvalues _ hmember _ id e.1.name
  · exact sends_ownedWrites hs id value m howned

private theorem sends_insertMembers_of_links {value : Record}
    (hvalues : ∀ m ∈ value, ∀ model owner field, Sends r.Admits (link r m.2 model owner field))
    (model : String) : Sends r.Admits (insertMembers r value model) := by
  rw [insertMembers_eq]
  refine Sends.within ?_ .insert
  refine sends_ofExcept_bind fun s hrequired => ?_
  obtain ⟨hs, rfl⟩ := Registry.require_named hrequired
  refine (sends_insertRow (Registry.schema?_mem hs) value).bind fun id => ?_
  have hwrites := sends_insertWrites_of_links hvalues hs id
  exact (sends_inOrder hwrites).bind fun _ => sends_findByKey r _ id {}

variable (r)

theorem sends_link (value : Json) : ∀ model owner field,
    Sends r.Admits (link r value model owner field) := by
  induction value using Json.induction with
  | null =>
    intro model owner field
    rw [link]
    exact sends_pure _
  | obj members ih =>
    intro model owner field
    have hinsert := sends_insertMembers_of_links ih
    rw [link]
    refine sends_ofExcept_bind fun found hfound => ?_
    obtain ⟨f, relation⟩ := found
    obtain ⟨hset, hlinks⟩ := sends_linked hfound owner
    dsimp only
    split
    · next hreference =>
      refine (sends_ofExcept _).bind fun parts => ?_
      split
      · exact (sends_pure _).bind fun id => hset hreference id
      · refine (hinsert _).bind fun rows => ?_
        exact (sends_storedKey _ _ _ _).bind fun id => hset hreference id
    · next hno => exact hlinks hno (.obj members)
  | bool b => exact sends_link_plain (by simp) (by simp)
  | num n => exact sends_link_plain (by simp) (by simp)
  | str t => exact sends_link_plain (by simp) (by simp)
  | arr items ih => exact sends_link_plain (by simp) (by simp)

theorem sends_insertWrites {s : Schema} (hs : r.schema? s.name = some s) (id : Json)
    (value : Record) : ∀ m ∈ insertWrites r s s.name id value, Sends r.Admits m :=
  sends_insertWrites_of_links (fun m _ => sends_link r m.2) hs id

theorem sends_insertMembers (value : List (String × Json)) (model : String) :
    Sends r.Admits (insertMembers r value model) :=
  sends_insertMembers_of_links (fun m _ => sends_link r m.2) model

/-- The table of links is that of the field named, whichever field of this name is found. -/
theorem sends_replaceLinks {s : Schema} (hs : s ∈ r.schemas) {f : Field} (hf : f ∈ s.fields)
    {relation : Relation} (hkind : f.kind = .manyToMany relation) (owner value : Json) :
    Sends r.Admits (replaceLinks r s.name owner f.name value) := by
  obtain ⟨howner, -, -⟩ := Registry.holds_links hs hf hkind
  refine sends_ofExcept_bind fun found hfound => ?_
  obtain ⟨g, other⟩ := found
  obtain ⟨-, -, -, hname, -⟩ := relationField_eq_ok hfound
  have hjoin : r.Holds (JoinTable.of s.name g.name other.model).name
      (JoinTable.of s.name g.name other.model).owner := hname ▸ howner
  exact (sends_send (.deleteRow hjoin)).bind fun _ => sends_link r value _ _ _

theorem sends_updatedRelation {s : Schema} (hs : s ∈ r.schemas) (id : Json) {e : Entry}
    (he : e.1 ∈ s.fields) : Sends r.Admits (updatedRelation r s.name id e) := by
  unfold updatedRelation
  split
  · next relation hkind => exact sends_replaceLinks r hs he hkind _ _
  · exact sends_link r _ _ _ _

/-- Whatever can be increased is held in the own table. -/
theorem holds_increasable {s : Schema} (hs : s ∈ r.schemas) {field : String}
    (h : isIncreasable s field = true) : r.Holds s.name field := by
  unfold isIncreasable at h
  split at h
  · next f hf =>
    have hname : f.name = field := Query.field?_name hf
    subst hname
    simp only [Bool.and_eq_true, Bool.not_eq_true'] at h
    obtain ⟨hown, hnumber⟩ := h
    have hcolumn : f.hasColumn = true := by
      unfold Field.hasColumn Field.kind
      cases htype : f.type <;> rw [htype] at hnumber <;> first | rfl | cases hnumber
    exact .own hs (Schema.mem_ownFields.mpr ⟨Schema.field?_mem hf, hcolumn, hown⟩)
  · cases h

theorem holds_assigned {s : Schema} (hs : s ∈ r.schemas) {value : Record} :
    ∀ a ∈ assignments (s.assignedEntries value), r.Holds s.name a.column :=
  holds_assignments fun _ he => Registry.holds_scalar hs (List.mem_of_mem_filter he)

/-- What an update writes before the row. -/
theorem sends_updateWrites {s : Schema} (hs : r.schema? s.name = some s) (id : Json)
    (value : Record) :
    ∀ m ∈ (s.relationEntries value).map (updatedRelation r s.name id) ++ ownedWrites r s id value,
      Sends r.Admits m := by
  intro m hm
  rcases List.mem_append.mp hm with hrelation | howned
  · obtain ⟨e, he, rfl⟩ := List.mem_map.mp hrelation
    exact sends_updatedRelation r (Registry.schema?_mem hs) id
      (Schema.mem_entries_fields (List.mem_of_mem_filter he))
  · exact sends_ownedWrites hs id value m howned

theorem sends_updateOne (model : String) (value : Record) :
    Sends r.Admits (updateOne r model value) := by
  refine Sends.within ?_ .update
  refine sends_ofExcept_bind fun s hrequired => ?_
  obtain ⟨hs, rfl⟩ := Registry.require_named hrequired
  have hmem := Registry.schema?_mem hs
  dsimp only
  split
  · exact sends_fail _
  · next id hid =>
    refine (sends_inOrder (sends_updateWrites r hs id value)).bind fun _ => ?_
    split
    · exact sends_findByKey r _ id {}
    · exact (sends_send (.updateRow (.key hmem) (holds_assigned r hmem))).bind fun _ =>
        sends_findByKey r _ id {}

theorem sends_updateAll (model : String) (values : Record) (condition : Condition) :
    Sends r.Admits (updateAll r model values condition) := by
  refine Sends.within ?_ .update
  refine sends_ofExcept_bind fun s hrequired => ?_
  obtain ⟨hs, rfl⟩ := Registry.require_named hrequired
  have hmem := Registry.schema?_mem hs
  refine (sends_matchingKeys r _ condition).bind fun keys => ?_
  split
  · exact sends_pure _
  · dsimp only
    split
    · exact sends_findByKeys r _ keys
    · exact (sends_send (.updateRow (.key hmem) (holds_assigned r hmem))).bind fun _ =>
        sends_findByKeys r _ keys

theorem sends_increase (model : String) (id : Json) (field : String) (delta : Json) :
    Sends r.Admits (increase r model id field delta) := by
  refine Sends.within ?_ .update
  refine sends_ofExcept_bind fun s hrequired => ?_
  obtain ⟨hs, rfl⟩ := Registry.require_named hrequired
  have hmem := Registry.schema?_mem hs
  split
  · next hincreasable =>
    have hfield := holds_increasable r hmem (Bool.and_eq_true_iff.mp hincreasable).1
    refine (sends_send (.updateRow (.key hmem) ?_)).bind fun _ => sends_findByKey r _ _ _
    exact List.forall_mem_singleton.mpr hfield
  · exact sends_fail _

end Store

end EntityStore
