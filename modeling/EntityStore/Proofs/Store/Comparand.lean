import EntityStore.Predicate
import EntityStore.Proofs.Storage.Placement
import EntityStore.Proofs.Store.Write

/-!
What a comparison binds and what writing stores. Both make a parameter of the value, the comparison
by whether the field holds integers and writing by whether it holds objects. They make the same one
of every value but of objects, which only writing takes to bytes, and of numerals for fields of
integers, which only the comparison takes to integers.
-/
namespace EntityStore

open Run

def Json.numeral? : Json → Option Int
  | .str s => Text.readTrimmedInt64? s
  | _ => none

namespace Parameter

variable {v : Json}

theorem ofId_eq_ofJson_iff : ofId v = ofJson v ↔ v.numeral? = none := by
  cases v with
  | str s =>
    rw [ofId, Json.numeral?]
    cases Text.readTrimmedInt64? s <;> simp [ofJson]
  | _ => exact iff_of_true rfl rfl

/-- No value but null is bound as bytes to a column of anything but objects. -/
theorem ofJson_eq_ofObject_iff : ofJson v = ofObject v ↔ v = .null := by
  cases v with
  | num n =>
    rw [ofJson, ofNumber]
    cases n.int64? <;> simp [ofObject]
  | _ => simp [ofJson, ofObject]

theorem ofId_eq_ofObject_iff : ofId v = ofObject v ↔ v = .null := by
  cases hnumeral : v.numeral? with
  | none => rw [ofId_eq_ofJson_iff.mpr hnumeral, ofJson_eq_ofObject_iff]
  | some n =>
    cases v with
    | str s =>
      rw [Json.numeral?] at hnumeral
      simp [ofId, ofObject, hnumeral]
    | _ => cases hnumeral

end Parameter

namespace Field

theorem type_of_kind {f : Field} {t : FieldType} (h : f.kind = .scalar t) : f.type = t := by
  unfold kind at h
  split at h
  · split at h <;> cases h
  · cases h
  · exact FieldKind.scalar.inj h

theorem parameter_eq (f : Field) (v : Json) :
    f.parameter v = if f.type = .object then .ofObject v else .ofJson v :=
  rfl

end Field

section Comparison

variable {r : Registry} {s : Schema} {f : Field}

theorem Schema.holdsIntegers_of_scalar (hf : s.field? f.name = some f)
    (hscalar : f.isScalar = true) :
    s.holdsIntegers f.name = true ↔ f.name = s.primaryKey ∨ f.type.isIntegral = true := by
  unfold Field.isScalar at hscalar
  split at hscalar
  · next t hkind =>
    rw [Field.type_of_kind hkind, holdsIntegers, hf]
    simp [hkind]
  · cases hscalar

/-- A comparison of a scalar is kept, and compares with the comparand. -/
theorem Condition.resolve?_comparison (hs : r.schema? s.name = some s)
    (hf : s.field? f.name = some f) (hscalar : f.isScalar = true) (operator : Comparison)
    (v : Json) :
    ∃ left, (comparison f.name operator v).resolve? r s.name =
      some (.compare left operator (.value (r.comparand s.name f.name v))) := by
  have hcolumn : f.hasColumn = true := by
    have hne := Field.kind_ne_scalar_relation
      (r.checkField_eq_ok (Registry.schema?_mem hs) (Schema.field?_mem hf))
    unfold Field.isScalar at hscalar
    split at hscalar
    · next t hkind =>
      rw [hkind] at hne
      simpa [Field.hasColumn, hkind] using hne
    · cases hscalar
  obtain ⟨left, hleft⟩ : ∃ left, r.expression? s.name f.name = some left := by
    rw [Registry.expression?, hs, Option.bind_some, Schema.expression?_of_field hf]
    cases f.isLocalized <;> simp [hcolumn]
  refine ⟨left, ?_⟩
  simp [comparison, resolve?, operand?, hleft]

/-- The comparand is what is stored, unless one of them takes the value to another form. -/
theorem Registry.comparand_eq_parameter_iff (hs : r.schema? s.name = some s)
    (hf : s.field? f.name = some f) (hscalar : f.isScalar = true) (v : Json) :
    r.comparand s.name f.name v = f.parameter v ↔
      (f.type = .object → v = .null) ∧
      (f.name = s.primaryKey ∨ f.type.isIntegral = true → v.numeral? = none) := by
  rw [comparand, hs, f.parameter_eq, ← Schema.holdsIntegers_of_scalar hf hscalar]
  by_cases hobject : f.type = .object <;> by_cases hintegers : s.holdsIntegers f.name = true
  · simp only [hobject, hintegers, if_true, Parameter.ofId_eq_ofObject_iff, true_implies]
    exact ⟨fun h => ⟨h, h ▸ rfl⟩, And.left⟩
  · simp [hobject, hintegers, Parameter.ofJson_eq_ofObject_iff]
  · simp [hobject, hintegers, Parameter.ofId_eq_ofJson_iff]
  · simp [hobject, hintegers]

end Comparison

def Command.Stores (table column : String) (p : Parameter) : Command → Prop
  | insert name columns rows _ => name = table ∧ ∃ row ∈ rows, (column, p) ∈ columns.zip row
  | update name assignments _ => name = table ∧ ⟨column, .value p⟩ ∈ assignments
  | _ => False

def Schema.tableOf (s : Schema) (f : Field) : String :=
  if f.isLocalized then localizedTable s.name else s.name

namespace Store

variable {r : Registry} {s : Schema} {f : Field} {v id : Json} {value : Record}

section Entries

theorem mem_scalarEntries (hf : f ∈ s.fields) (hscalar : f.isScalar = true)
    (hown : f.isLocalized = false) (hv : Record.get? f.name value = some v) :
    (f, v) ∈ s.scalarEntries value := by
  refine List.mem_filter.mpr ⟨Schema.mem_entries.mpr ⟨hf, hv⟩, ?_⟩
  simp [hscalar, hown]

theorem mem_localizedEntries (hf : f ∈ s.fields) (hlocalized : f.isLocalized = true)
    (hv : Record.get? f.name value = some v) : (f, v) ∈ s.localizedEntries value :=
  List.mem_filter.mpr ⟨Schema.mem_entries.mpr ⟨hf, hv⟩, hlocalized⟩

theorem mem_zip_entries {entries : List Entry} (h : (f, v) ∈ entries) :
    (f.name, f.parameter v) ∈
      (entries.map fun e => e.1.name).zip (entries.map fun e => e.1.parameter e.2) := by
  rw [List.zip_map']
  exact List.mem_map_of_mem h

theorem mem_assignments {entries : List Entry} (h : (f, v) ∈ entries) :
    ⟨f.name, .value (f.parameter v)⟩ ∈ assignments entries :=
  List.mem_map_of_mem h

end Entries

/-- The row of localized values gets each of them, whether it is made or there is one. -/
theorem stores_writeLocalized {id : Json} {entries : List Entry} (h : (f, v) ∈ entries)
    {session : Session} (hok : (writeLocalized r s.name id entries session).1 = .ok ()) :
    ∃ c ∈ (writeLocalized r s.name id entries session).2.sent,
      c.Stores (Schema.localizedTable s.name) f.name (f.parameter v) := by
  unfold writeLocalized at hok ⊢
  obtain ⟨found, s', -, -, heq⟩ := bind_ok hok
  rw [heq]
  refine ⟨_, mem_sent_bind (fun _ => sends_pure (P := fun _ => True) ()) (mem_sent_send _ s'), ?_⟩
  split
  · exact ⟨rfl, _, List.mem_singleton_self _, List.mem_cons_of_mem _ (mem_zip_entries h)⟩
  · exact ⟨rfl, mem_assignments h⟩

/-- The operations bind this parameter for the value when they write it to the field. -/
structure Binds (r : Registry) (s : Schema) (f : Field) (v : Json) (p : Parameter) : Prop where
  insertOne : ∀ value replies rows, Record.get? f.name value = some v →
    (f.name = s.primaryKey → v.isNull = false) →
    (insertOne r s.name value ⟨replies, []⟩).1 = .ok rows →
    ∃ c ∈ (insertOne r s.name value ⟨replies, []⟩).2.sent, c.Stores (s.tableOf f) f.name p
  insertAll : ∀ values replies, ∀ value ∈ values, Record.get? f.name value = some v →
    f ∈ filledFields s values →
    ∃ c ∈ (insertAll r s.name values ⟨replies, []⟩).2.sent, c.Stores (s.tableOf f) f.name p
  updateOne : ∀ value replies rows, Record.get? f.name value = some v → f.name ≠ s.primaryKey →
    (updateOne r s.name value ⟨replies, []⟩).1 = .ok rows →
    ∃ c ∈ (updateOne r s.name value ⟨replies, []⟩).2.sent, c.Stores (s.tableOf f) f.name p

section Operations

theorem isEmpty_of_mem {entries : List Entry} {e : Entry} (h : e ∈ entries) :
    entries.isEmpty = false := by
  cases entries with
  | nil => cases h
  | cons => rfl

theorem stores_insertRow (hentry : (f, v) ∈ s.insertedEntries value) (session : Session) :
    ∃ c ∈ (insertRow s value session).2.sent, c.Stores s.name f.name (f.parameter v) := by
  unfold insertRow
  rw [isEmpty_of_mem hentry]
  refine ⟨_, mem_sent_bind (P := fun _ => True) (fun result => ?_) (mem_sent_send _ session), ?_⟩
  · split
    · exact sends_pure _
    · split
      · exact sends_fail _
      · exact sends_pure _
    · exact sends_fail _
  · exact ⟨rfl, _, List.mem_singleton_self _, mem_zip_entries hentry⟩

/-- The localized values of a record are written with what else lies outside of its row. -/
theorem stores_inOrder {ms : List (Run Unit)} (hms : ∀ m ∈ ms, Sends r.Admits m)
    (howned : ∀ m ∈ ownedWrites r s id value, m ∈ ms)
    (hlocalized : (f, v) ∈ s.localizedEntries value) {session : Session}
    (hok : (inOrder ms session).1 = .ok ()) :
    ∃ c ∈ (inOrder ms session).2.sent,
      c.Stores (Schema.localizedTable s.name) f.name (f.parameter v) := by
  have hmem : writeLocalized r s.name id (s.localizedEntries value) ∈ ownedWrites r s id value := by
    unfold ownedWrites
    dsimp only
    rw [isEmpty_of_mem hlocalized]
    exact List.mem_append_right _ (List.mem_singleton_self _)
  obtain ⟨s', hwritten, hkept⟩ := inOrder_ok hms hok (howned _ hmem)
  obtain ⟨c, hc, hstores⟩ := stores_writeLocalized hlocalized hwritten
  exact ⟨c, hkept c hc, hstores⟩

theorem stores_insertOne (hs : r.schema? s.name = some s) (hf : f ∈ s.fields)
    (hscalar : f.isScalar = true) (hv : Record.get? f.name value = some v)
    (hkey : f.name = s.primaryKey → v.isNull = false) {session : Session} {rows : List Record}
    (hok : (insertOne r s.name value session).1 = .ok rows) :
    ∃ c ∈ (insertOne r s.name value session).2.sent,
      c.Stores (s.tableOf f) f.name (f.parameter v) := by
  unfold insertOne at hok ⊢
  rw [insertMembers_eq, Registry.require_eq_ok.mpr hs, ofExcept_ok_bind] at hok ⊢
  rw [within_snd]
  obtain ⟨id, s₁, hrow, hok, heq⟩ := bind_ok (within_ok hok)
  obtain ⟨⟨⟩, s₂, hwrites, -, -⟩ := bind_ok hok
  have hread : ∀ x : Unit, Sends r.Admits (findByKey r s.name id {}) :=
    fun _ => sends_findByKey r _ id {}
  have hsends := sends_insertWrites r hs id value
  cases hlocalized : f.isLocalized with
  | false =>
    have hentry : (f, v) ∈ s.insertedEntries value := by
      refine List.mem_filter.mpr ⟨mem_scalarEntries hf hscalar hlocalized hv, ?_⟩
      by_cases hname : f.name = s.primaryKey <;> simp [hname, hkey]
    obtain ⟨c, hc, hstores⟩ := stores_insertRow hentry session
    rw [hrow] at hc
    rw [Schema.tableOf, hlocalized, heq]
    exact ⟨c, mem_sent_bind hread ((sends_inOrder hsends).mem hc), hstores⟩
  | true =>
    have hentry := mem_localizedEntries hf hlocalized hv
    obtain ⟨c, hc, hstores⟩ := stores_inOrder hsends (fun _ => List.mem_append_right _) hentry
      (show (inOrder (insertWrites r s s.name id value) s₁).1 = .ok () by rw [hwrites])
    rw [Schema.tableOf, hlocalized, heq]
    exact ⟨c, mem_sent_bind hread hc, hstores⟩

theorem stores_updateOne (hs : r.schema? s.name = some s) (hf : f ∈ s.fields)
    (hscalar : f.isScalar = true) (hv : Record.get? f.name value = some v)
    (hkey : f.name ≠ s.primaryKey) {session : Session} {rows : List Record}
    (hok : (updateOne r s.name value session).1 = .ok rows) :
    ∃ c ∈ (updateOne r s.name value session).2.sent,
      c.Stores (s.tableOf f) f.name (f.parameter v) := by
  unfold updateOne at hok ⊢
  rw [Registry.require_eq_ok.mpr hs, ofExcept_ok_bind] at hok ⊢
  rw [within_snd]
  replace hok := within_ok hok
  cases hid : (Record.get? s.primaryKey value).filter fun v => !v.isNull with
  | none =>
    rw [hid] at hok
    cases hok
  | some id =>
    rw [hid] at hok
    dsimp only at hok ⊢
    obtain ⟨⟨⟩, s₁, hwrites, hok, heq⟩ := bind_ok hok
    have hread : ∀ x : Unit, Sends r.Admits (findByKey r s.name id {}) :=
      fun _ => sends_findByKey r _ id {}
    rw [heq]
    cases hlocalized : f.isLocalized with
    | false =>
      have hentry : (f, v) ∈ s.assignedEntries value :=
        List.mem_filter.mpr ⟨mem_scalarEntries hf hscalar hlocalized hv, by simpa using hkey⟩
      rw [isEmpty_of_mem hentry, Schema.tableOf, hlocalized]
      refine ⟨_, mem_sent_bind (fun _ => hread ()) (mem_sent_send _ s₁), rfl, ?_⟩
      exact mem_assignments hentry
    | true =>
      have hentry := mem_localizedEntries hf hlocalized hv
      obtain ⟨c, hc, hstores⟩ := stores_inOrder (sends_updateWrites r hs id value)
        (fun _ => List.mem_append_right _) hentry (by rw [hwrites])
      rw [hwrites] at hc
      refine ⟨c, ?_, by rwa [Schema.tableOf, hlocalized]⟩
      split
      · exact (hread ()).mem hc
      · exact mem_sent_bind (fun _ => hread ()) ((sends_send (P := fun _ => True) trivial).mem hc)

theorem stores_insertAll (hs : r.schema? s.name = some s) {values : List Record}
    (hvalue : value ∈ values) (hv : Record.get? f.name value = some v)
    (hfilled : f ∈ filledFields s values) (session : Session) :
    ∃ c ∈ (insertAll r s.name values session).2.sent,
      c.Stores (s.tableOf f) f.name (f.parameter v) := by
  have hown : f.isLocalized = false := by
    have hmem := (List.mem_filter.mp (List.mem_filter.mp hfilled).1).1
    exact (Schema.mem_ownFields.mp hmem).2.2
  have hvalues : values.isEmpty = false := by
    cases values with
    | nil => cases hvalue
    | cons => rfl
  have hfields : (filledFields s values).isEmpty = false := by
    cases hnil : filledFields s values with
    | nil => rw [hnil] at hfilled; cases hfilled
    | cons => rfl
  rw [Schema.tableOf, hown]
  unfold insertAll
  rw [Registry.require_eq_ok.mpr hs, ofExcept_ok_bind, within_snd, hvalues]
  dsimp only
  rw [hfields]
  refine ⟨_, mem_sent_bind (fun _ => sends_findByKeys r _ _) (mem_sent_send _ session), rfl, _,
    List.mem_map_of_mem hvalue, ?_⟩
  have hcell : cell f value = f.parameter v := by rw [cell, hv]; rfl
  rw [List.zip_map', ← hcell]
  exact List.mem_map_of_mem hfilled

end Operations

theorem binds_parameter (hs : r.schema? s.name = some s) (hf : f ∈ s.fields)
    (hscalar : f.isScalar = true) (v : Json) : Binds r s f v (f.parameter v) where
  insertOne _ _ _ hv hkey hok := stores_insertOne hs hf hscalar hv hkey hok
  insertAll _ _ _ hvalue hv hfilled := stores_insertAll hs hvalue hv hfilled _
  updateOne _ _ _ hv hkey hok := stores_updateOne hs hf hscalar hv hkey hok

end Store

/-- A comparison of a scalar is kept whatever it compares with, and binds for a value what inserts
and updates bind to store it, except that an object is stored as bytes and compared as text, and
the numeral of an integer stored as text and compared as an integer. -/
theorem comparison_binds_stored_iff {r : Registry} {s : Schema} (hs : r.schema? s.name = some s)
    {f : Field} (hf : s.field? f.name = some f) (hscalar : f.isScalar = true)
    (operator : Comparison) (v : Json) :
    Store.Binds r s f v (f.parameter v) ∧
    ∃ left bound,
      (Condition.comparison f.name operator v).resolve? r s.name =
        some (.compare left operator (.value bound)) ∧
      (bound = f.parameter v ↔ (f.type = .object → v = .null) ∧
        (f.name = s.primaryKey ∨ f.type.isIntegral = true → v.numeral? = none)) := by
  obtain ⟨left, hleft⟩ := Condition.resolve?_comparison hs hf hscalar operator v
  exact ⟨Store.binds_parameter hs (Schema.field?_mem hf) hscalar v, left, _, hleft,
    r.comparand_eq_parameter_iff hs hf hscalar v⟩

namespace Sample

def parcel : Schema where
  name := "Parcel"
  fields := [
    { name := "id", type := .integer, primary := true },
    { name := "size", type := .integer },
    { name := "data", type := .object }]

def parcels : Registry := ⟨[parcel], rfl⟩

def pair : Json :=
  .obj [("a", .num (.int 1))]

end Sample

open Sample in
/-- The number of a size is compared as it is stored. -/
theorem comparison_binds_stored_of_size :
    Store.Binds parcels parcel { name := "size", type := .integer } (.ofInt 5) (.int 5) ∧
    ∃ left, (Condition.comparison "size" .equal (.ofInt 5)).resolve? parcels "Parcel" =
      some (.compare left .equal (.value (.int 5))) := by
  obtain ⟨hstored, left, bound, hbound, hagree⟩ :=
    @comparison_binds_stored_iff parcels parcel rfl { name := "size", type := .integer } rfl rfl
      .equal (.ofInt 5)
  cases hagree.mpr ⟨nofun, fun _ => rfl⟩
  exact ⟨hstored, left, hbound⟩

open Sample in
/-- Data is inserted as bytes and compared as a text. -/
theorem comparison_binds_other :
    (Store.insertOne parcels "Parcel" [("data", pair)] ⟨[], []⟩).2.sent =
      [.insert "Parcel" ["data"] [[.bytes pair.text.toUTF8]] (some "id")] ∧
    (Condition.equals "data" pair).resolve? parcels "Parcel" =
      some (.compare (.column "Parcel" "data") .equal (.value (.text pair.text))) := by
  refine ⟨?_, rfl⟩
  unfold Store.insertOne
  rw [Store.insertMembers_eq]
  rfl

end EntityStore
