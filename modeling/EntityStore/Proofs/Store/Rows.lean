import EntityStore.Proofs.Store.Owner

/-!
Inserting several records with one statement: which columns it fills, and with what. Only columns
that the model declares are filled. The key is filled where every record has one, since a row
without a key gets it from the server; any other column is filled where some record says something
of it.
-/
namespace EntityStore

open Run

namespace Store

variable {r : Registry} {s : Schema} {values : List Record} {session : Session}

/-- What a row holds in the column of a field: the value that its record gives, or else the default
of the field, or else NULL. -/
structure Fills (value : Record) (f : Field) (p : Parameter) : Prop where
  given : ∀ v, Record.get? f.name value = some v → p = f.parameter v
  default : ∀ v, Record.get? f.name value = none → f.default = some v → p = f.parameter v
  empty : Record.get? f.name value = none → f.default = none → p = .null

def Keyed (s : Schema) (values : List Record) : Prop :=
  ∀ value ∈ values, ∃ id, ownKey? s value = some id

/-- The rows store the records in the columns of these fields, one row for each record and one cell
for each field. -/
structure StoresAll (s : Schema) (values : List Record) (fields : List Field)
    (rows : List (List Parameter)) : Prop where
  tuples : List.Forall₂ (fun value row => List.Forall₂ (Fills value) fields row) values rows
  declared : ∀ f ∈ fields, f ∈ s.ownFields ∧ f.isScalar = true
  keyed : ∀ f ∈ fields, f.name = s.primaryKey → Keyed s values
  supplied : ∀ value ∈ values, ∀ f ∈ s.ownFields, f.isScalar = true →
    ∀ v, Record.get? f.name value = some v → v ≠ .null →
    (f.name = s.primaryKey → Keyed s values) → f ∈ fields

theorem fills_cell (value : Record) (f : Field) : Fills value f (cell f value) where
  given v hv := by rw [cell, hv]; rfl
  default v hnone hdefault := by rw [cell, hnone, hdefault]; rfl
  empty hnone hdefault := by
    rw [cell, hnone, hdefault]
    exact ite_self _

theorem exists_ownKey?_iff {value : Record} : (∃ id, ownKey? s value = some id) ↔
    (match Record.get? s.primaryKey value with
      | some k => !k.isNull
      | none => false) = true := by
  unfold ownKey?
  cases Record.get? s.primaryKey value with
  | none => simp
  | some k => simp [Option.filter_eq_some_iff]

theorem mem_filledFields {f : Field} : f ∈ filledFields s values ↔
    (f ∈ s.ownFields ∧ f.isScalar = true) ∧
      if f.name = s.primaryKey then Keyed s values
      else ∃ value ∈ values, ∃ v, Record.get? f.name value = some v := by
  unfold filledFields
  rw [List.mem_filter, List.mem_filter]
  refine and_congr_right fun _ => ?_
  split
  · exact List.all_eq_true.trans (forall₂_congr fun value _ => exists_ownKey?_iff.symm)
  · simp only [List.any_eq_true, Record.contains, Option.isSome_iff_exists]

/-- The columns that are filled hold all that the records give for declared scalars. -/
theorem storesAll_filledFields (s : Schema) (values : List Record) :
    StoresAll s values (filledFields s values)
      (values.map fun v => (filledFields s values).map fun f => cell f v) where
  tuples := by
    simp only [List.forall₂_map_right_iff, List.forall₂_same]
    exact fun value _ f _ => fills_cell value f
  declared f hf := (mem_filledFields.mp hf).1
  keyed f hf hkey := by
    have hfilled := (mem_filledFields.mp hf).2
    rwa [if_pos hkey] at hfilled
  supplied value hvalue f hf hscalar v hv _ hkeyed := by
    refine mem_filledFields.mpr ⟨⟨hf, hscalar⟩, ?_⟩
    split
    · next hkey => exact hkeyed hkey
    · exact ⟨value, hvalue, v, hv⟩

/-- Where no column is filled, rows are made one by one and without values. -/
theorem sends_insertEmpty_default (model key : String) (n : Nat) :
    Sends (fun c => c = .insertDefaults model key) (insertEmpty model key n) := by
  induction n with
  | zero => exact sends_pure _
  | succ n ih => exact Sends.bind (sends_send rfl) fun result => ih.bind fun others => sends_pure _

/-- Several records cost one statement with their rows, or one for each of them where there is
nothing to fill in, and else nothing but reads. -/
theorem issues_insertAll (hs : r.schema? s.name = some s) (values : List Record)
    (session : Session) :
    (∃ commands, Issues (insertAll r s.name values) session commands ∧
      ∀ c ∈ commands, c = .insertDefaults s.name s.primaryKey ∨ c.IsRead) ∨
    ∃ reads, Issues (insertAll r s.name values) session
        (.insert s.name ((filledFields s values).map Field.name)
          (values.map fun v => (filledFields s values).map fun f => cell f v)
          (some s.primaryKey) :: reads) ∧
      ∀ c ∈ reads, c.IsRead := by
  unfold insertAll
  rw [Registry.require_eq_ok.mpr hs, ofExcept_ok_bind]
  simp only [issues_within]
  split
  · exact .inl ⟨[], issues_of_silent rfl, by simp⟩
  · split
    · refine .inl (Sends.exists_issues ?_ session)
      have hempty := sends_insertEmpty_default s.name s.primaryKey values.length
      refine Sends.bind (hempty.mono fun c => .inl) fun keys => ?_
      exact (reads_findByKeys r s.name keys).mono fun c => .inr
    · exact .inr ((issues_send _ session).bind_sends fun result => reads_findByKeys r s.name _)

end Store

open Store in
/-- Of several records for which one statement with values goes out, it stores all that they give:
nothing else is written, each record has its row, and each value for a declared scalar of the
model's own table stands in the row of its record, a key if every record has one. What a record
does not mention takes its default, or else is NULL. -/
theorem insertAll_stores_given (r : Registry) {s : Schema} (hs : r.schema? s.name = some s)
    (values : List Record) (session : Session) {commands : List Command} {table : String}
    {columns : List String} {rows : List (List Parameter)} {returning : Option String}
    (hissues : Issues (insertAll r s.name values) session commands)
    (h : .insert table columns rows returning ∈ commands) :
    table = s.name ∧
    (∃ reads, commands = .insert table columns rows returning :: reads ∧ ∀ c ∈ reads, c.IsRead) ∧
    ∃ fields, columns = fields.map Field.name ∧ StoresAll s values fields rows := by
  obtain ⟨others, hothers, hplain⟩ | ⟨reads, hrows, hreads⟩ := issues_insertAll hs values session
  · obtain rfl := hissues.unique hothers
    rcases hplain _ h with hdefault | hread
    · cases hdefault
    · cases hread
  · obtain rfl := hissues.unique hrows
    rcases List.mem_cons.mp h with heq | hlater
    · cases heq
      exact ⟨rfl, ⟨reads, rfl, hreads⟩, _, rfl, storesAll_filledFields s values⟩
    · cases hreads _ hlater

namespace Sample

def member : Schema where
  name := "Member"
  fields := [
    { name := "id", type := .integer, primary := true },
    { name := "name", type := .string },
    { name := "active", type := .boolean, default := some (.bool true) }]

def note : Schema where
  name := "Note"
  fields := [{ name := "text", type := .string }]

def members : Registry := ⟨[member, note], rfl⟩

def joining : List Record :=
  [[("id", .ofInt 1), ("name", .str "ann")], [("active", .bool false), ("id", .ofInt 2)]]

end Sample

section Joining

open Store Sample

private theorem issues_joining : Issues (insertAll members member.name joining) ⟨[], []⟩
    [.insert "Member" ["id", "name", "active"]
      [[.int 1, .text "ann", .bool true], [.int 2, .null, .bool false]] (some "id")] :=
  rfl

theorem insertAll_stores_given_of_joining :
    ∃ fields, ["id", "name", "active"] = fields.map Field.name ∧
      StoresAll member joining fields
        [[.int 1, .text "ann", .bool true], [.int 2, .null, .bool false]] :=
  have hmem := List.mem_singleton_self _
  (insertAll_stores_given members rfl joining ⟨[], []⟩ issues_joining hmem).2.2

/-- A key that only one record brings is stored for none of them, although it has a column, and
neither is a key that is not declared. -/
theorem insertAll_drops_key :
    (∃ f ∈ member.ownFields, f.name = "id" ∧ f.isScalar = true) ∧
    Issues (insertAll members member.name [[("id", .ofInt 5), ("name", .str "ann")],
        [("name", .str "bob")]]) ⟨[], []⟩
      [.insert "Member" ["name"] [[.text "ann"], [.text "bob"]] (some "id")] ∧
    note.primaryKey = "id" ∧
    Issues (insertAll members note.name [[("id", .ofInt 5), ("text", .str "hello")]]) ⟨[], []⟩
      [.insert "Note" ["text"] [[.text "hello"]] (some "id")] := by
  refine ⟨⟨{ name := "id", type := .integer, primary := true }, ?_, rfl, rfl⟩, rfl, rfl, rfl⟩
  exact List.mem_cons_self ..

end Joining

end EntityStore
