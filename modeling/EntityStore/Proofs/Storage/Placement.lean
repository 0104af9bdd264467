import EntityStore.Predicate
import EntityStore.Proofs.Storage.Columns
import EntityStore.Stored

/-!
Where a field is stored. The tables that are made, the expressions that read and the parts of a
record that are written agree: a field has a column of the own table, or one of the table of
localized values, or a table of its own.
-/
namespace EntityStore

inductive RecordPart where
  | scalars
  | relations
  | lists
  | localized
deriving DecidableEq, Repr

namespace Schema

def part (s : Schema) (value : Record) : RecordPart → List Entry
  | .scalars => s.scalarEntries value
  | .relations => s.relationEntries value
  | .lists => s.listEntries value
  | .localized => s.localizedEntries value

def partNames (s : Schema) (value : Record) (p : RecordPart) : List String :=
  (s.part value p).map fun e => e.1.name

/-- The field has a column of the own table, which is read under its name and written with the
scalars, or with the relations where it holds the key of a related row. -/
structure StoresInRow (s : Schema) (d : Dialect) (f : Field) : Prop where
  column : ∃ c, f.column? d = some c ∧ c ∈ (s.ownTable d).columns
  read : ∀ source, s.expression? source f.name = some (.column source f.name)
  table : auxiliaryOf? s.name f = none
  written : ∀ value v, Record.get? f.name value = some v →
    (f, v) ∈ s.part value (if f.isReference then .relations else .scalars)

/-- The field has a column of the table of localized values, which is read from the row with the
same key and written with the localized values. -/
structure StoresLocalized (s : Schema) (d : Dialect) (f : Field) : Prop where
  column : ∃ t c, s.localized? d = some t ∧ f.column? d = some c ∧ c ∈ t.columns
  read : ∀ source, s.expression? source f.name =
    some (.localized (localizedTable s.name) s.primaryKey source f.name)
  table : auxiliaryOf? s.name f = none
  written : ∀ value v, Record.get? f.name value = some v → (f, v) ∈ s.part value .localized

def auxiliaryName? (model : String) (f : Field) : Option String :=
  match f.kind with
  | .manyToMany r => some (JoinTable.of model f.name r.model).name
  | .list _ => some (listTable model f.name)
  | .scalar _ | .oneToOne _ | .oneToMany _ => none

/-- The field has no column and cannot be read; one table is made for it, between those of the
fields before it and behind it, and is written with the relations or with the lists. -/
structure StoresApart (s : Schema) (d : Dialect) (f : Field) : Prop where
  column : f.column? d = none
  read : ∀ source, s.expression? source f.name = none
  table : ∃ t, auxiliaryName? s.name f = some t.name ∧
    ∀ before after, s.fields = before ++ f :: after →
      s.auxiliary = before.filterMap (auxiliaryOf? s.name) ++
        t :: after.filterMap (auxiliaryOf? s.name)
  written : ∀ value v, Record.get? f.name value = some v →
    (f, v) ∈ s.part value (if f.isList then .lists else .relations)

inductive Placement where
  | row
  | localized
  | apart
deriving DecidableEq, Repr

def Stores (s : Schema) (d : Dialect) (f : Field) : Placement → Prop
  | .row => s.StoresInRow d f
  | .localized => s.StoresLocalized d f
  | .apart => s.StoresApart d f

/-- The entries of a record that name fields are each written once, and no other entries are. -/
structure RoutesOnce (s : Schema) (value : Record) : Prop where
  /-- What is written is an entry of the record that names a field. -/
  kept : ∀ p, ∀ e ∈ s.part value p, e.1 ∈ s.fields ∧ Record.get? e.1.name value = some e.2
  once : ∀ f ∈ s.fields, ∀ v, Record.get? f.name value = some v →
    ∃! p, f.name ∈ s.partNames value p
  nodup : ∀ p, (s.partNames value p).Nodup

def partOf (f : Field) : RecordPart :=
  if f.isLocalized then .localized
  else if f.isScalar then .scalars
  else if f.isList then .lists
  else .relations

end Schema

namespace Field

variable {f : Field}

theorem isReference_of_hasColumn (h : f.hasColumn = true) :
    f.isScalar = true ∧ f.isReference = false ∨
      f.isScalar = false ∧ f.isList = false ∧ f.isReference = true := by
  unfold hasColumn at h
  unfold isScalar isList isReference
  cases hkind : f.kind <;> simp_all [FieldKind.reference?]

theorem isScalar_of_isLocalized (h : f.isLocalized = true) : f.isScalar = true := by
  simp only [isLocalized, Bool.and_eq_true] at h
  obtain ⟨-, hkind⟩ := h
  unfold isScalar
  split at hkind
  · rfl
  · cases hkind

/-- A field is a relation where it is neither a scalar nor a list. -/
theorem isRelation_eq (f : Field) : f.isRelation = (!f.isScalar && !f.isList) := by
  unfold isRelation isScalar isList
  cases f.kind <;> rfl

theorem not_isList_of_isScalar (h : f.isScalar = true) : f.isList = false := by
  unfold isScalar at h
  unfold isList
  cases hkind : f.kind <;> simp_all

end Field

namespace Schema

section Entries

variable {s : Schema} {value : Record} {f : Field} {v : Json}

theorem mem_entries : (f, v) ∈ s.entries value ↔
    f ∈ s.fields ∧ Record.get? f.name value = some v := by
  simp only [entries, List.mem_filterMap, Option.map_eq_some_iff, Prod.mk.injEq]
  constructor
  · rintro ⟨g, hg, w, hw, rfl, rfl⟩
    exact ⟨hg, hw⟩
  · rintro ⟨hf, hv⟩
    exact ⟨f, hf, v, hv, rfl, rfl⟩

/-- A part consists of the entries whose fields belong to it, in their order. -/
theorem part_eq (s : Schema) (value : Record) (p : RecordPart) :
    s.part value p = (s.entries value).filter fun e => partOf e.1 = p := by
  have hscalar : ∀ f : Field, f.isLocalized = true → f.isScalar = true :=
    fun _ => Field.isScalar_of_isLocalized
  have hlist : ∀ f : Field, f.isScalar = true → f.isList = false :=
    fun _ => Field.not_isList_of_isScalar
  cases p <;> refine List.filter_congr fun e _ => ?_
  all_goals grind [partOf, Field.isRelation_eq]

theorem mem_part {p : RecordPart} : (f, v) ∈ s.part value p ↔
    f ∈ s.fields ∧ Record.get? f.name value = some v ∧ partOf f = p := by
  simp [part_eq, mem_entries, and_assoc]

/-- The fields that have entries, in their order. -/
theorem entries_fields (s : Schema) (value : Record) :
    (s.entries value).map Prod.fst =
      s.fields.filter fun f => (Record.get? f.name value).isSome := by
  unfold entries
  rw [List.map_filterMap, ← List.filterMap_eq_filter]
  congr 1
  funext f
  cases hv : Record.get? f.name value <;> simp [hv, Option.guard]

theorem partNames_nodup (hnames : (s.fields.map Field.name).Nodup) (value : Record)
    (p : RecordPart) : (s.partNames value p).Nodup := by
  have hentries : (s.part value p).Sublist (s.entries value) := by
    rw [part_eq]
    exact List.filter_sublist
  have hfields : ((s.entries value).map Prod.fst).Sublist s.fields := by
    rw [entries_fields]
    exact List.filter_sublist
  have hsublist : (s.partNames value p).Sublist (s.fields.map Field.name) := by
    have hmap := ((hentries.map Prod.fst).trans hfields).map Field.name
    rwa [List.map_map] at hmap
  exact hnames.sublist hsublist

/-- Where names differ, an entry belongs to the part of its field and to no other. -/
theorem mem_partNames (hnames : (s.fields.map Field.name).Nodup) (hf : f ∈ s.fields)
    (hv : Record.get? f.name value = some v) {p : RecordPart} :
    f.name ∈ s.partNames value p ↔ p = partOf f := by
  constructor
  · intro hmem
    obtain ⟨⟨g, w⟩, hg, hname⟩ := List.mem_map.mp hmem
    obtain ⟨hfield, -, hpart⟩ := mem_part.mp hg
    rw [← hpart, List.inj_on_of_nodup_map hnames hfield hf hname]
  · rintro rfl
    exact List.mem_map.mpr ⟨(f, v), mem_part.mpr ⟨hf, hv, rfl⟩, rfl⟩

theorem routesOnce (hnames : (s.fields.map Field.name).Nodup) (value : Record) :
    s.RoutesOnce value where
  kept p e he := by
    obtain ⟨hf, hv, -⟩ := mem_part.mp he
    exact ⟨hf, hv⟩
  once f hf v hv := ⟨partOf f, (mem_partNames hnames hf hv).mpr rfl,
    fun p hp => (mem_partNames hnames hf hv).mp hp⟩
  nodup p := partNames_nodup hnames value p

end Entries

section Placements

variable {s : Schema} {f : Field} {d : Dialect}

theorem expression?_of_field (hfield : s.field? f.name = some f) (source : String) :
    s.expression? source f.name =
      if f.hasColumn then
        if f.isLocalized then
          some (.localized (localizedTable s.name) s.primaryKey source f.name)
        else some (.column source f.name)
      else none := by
  cases hcolumn : f.hasColumn <;> simp [expression?, hfield, hcolumn]

theorem auxiliaryOf?_eq_none (model : String) (h : f.hasColumn = true) :
    auxiliaryOf? model f = none := by
  unfold Field.hasColumn at h
  unfold auxiliaryOf?
  split <;> simp_all

/-- A field without a column has a table. -/
theorem exists_auxiliaryOf? (model : String) (hcolumn : f.hasColumn = false)
    (hkind : f.kind ≠ .scalar .relation) :
    ∃ t, auxiliaryOf? model f = some t ∧ auxiliaryName? model f = some t.name := by
  unfold Field.hasColumn at hcolumn
  unfold auxiliaryOf? auxiliaryName?
  split <;> simp_all

theorem storesInRow (hf : f ∈ s.fields) (hfield : s.field? f.name = some f)
    (hcolumn : f.hasColumn = true) (hown : f.isLocalized = false) : s.StoresInRow d f where
  column := by
    obtain ⟨c, hc, -⟩ := Field.exists_columnWith? hcolumn f.primary d
    exact ⟨c, hc, mem_ownTable hf hown hc⟩
  read source := by simp [expression?_of_field hfield, hcolumn, hown]
  table := auxiliaryOf?_eq_none s.name hcolumn
  written value v hv := by
    refine mem_part.mpr ⟨hf, hv, ?_⟩
    rcases Field.isReference_of_hasColumn hcolumn with ⟨hscalar, href⟩ | ⟨hscalar, hlist, href⟩
    · simp [partOf, hown, hscalar, href]
    · simp [partOf, hown, hscalar, hlist, href]

theorem storesLocalized (hf : f ∈ s.fields) (hfield : s.field? f.name = some f)
    (hlocalized : f.isLocalized = true) : s.StoresLocalized d f where
  column := by
    have hcolumn := Field.hasColumn_of_isLocalized hlocalized
    obtain ⟨c, hc, -⟩ := Field.exists_columnWith? hcolumn f.primary d
    obtain ⟨t, ht, hmem⟩ := mem_localized? hf hlocalized hc
    exact ⟨t, c, ht, hc, hmem⟩
  read source := by
    simp [expression?_of_field hfield, Field.hasColumn_of_isLocalized hlocalized, hlocalized]
  table := auxiliaryOf?_eq_none s.name (Field.hasColumn_of_isLocalized hlocalized)
  written value v hv := mem_part.mpr ⟨hf, hv, by simp [partOf, hlocalized]⟩

theorem storesApart (hf : f ∈ s.fields) (hfield : s.field? f.name = some f)
    (hcolumn : f.hasColumn = false) (hkind : f.kind ≠ .scalar .relation) :
    s.StoresApart d f where
  column := Field.column?_eq_none hcolumn d
  read source := by simp [expression?_of_field hfield, hcolumn]
  table := by
    obtain ⟨t, ht, hname⟩ := exists_auxiliaryOf? s.name hcolumn hkind
    refine ⟨t, hname, fun before after hsplit => ?_⟩
    simp [auxiliary, hsplit, ht]
  written value v hv := by
    have hlocalized : f.isLocalized = false := by
      cases hl : f.isLocalized with
      | false => rfl
      | true => exact absurd (Field.hasColumn_of_isLocalized hl) (by simp [hcolumn])
    have hscalar : f.isScalar = false := by
      unfold Field.hasColumn at hcolumn
      unfold Field.isScalar
      split at hcolumn <;> simp_all
    refine mem_part.mpr ⟨hf, hv, ?_⟩
    cases hlist : f.isList <;> simp [partOf, hlocalized, hscalar, hlist]

def Placement.expression? (s : Schema) (f : Field) : Placement → Option Expression
  | .row => some (.column s.name f.name)
  | .localized => some (.localized (localizedTable s.name) s.primaryKey s.name f.name)
  | .apart => none

theorem Stores.read {p : Placement} (h : s.Stores d f p) :
    s.expression? s.name f.name = p.expression? s f := by
  cases p with
  | row => exact StoresInRow.read h s.name
  | localized => exact StoresLocalized.read h s.name
  | apart => exact StoresApart.read h s.name

theorem Stores.unique {p q : Placement} (hp : s.Stores d f p) (hq : s.Stores d f q) : p = q := by
  have heq : p.expression? s f = q.expression? s f := hp.read.symm.trans hq.read
  cases p <;> cases q <;> first | rfl | cases heq

end Placements

end Schema

/-- Where the names of its fields differ, every field of a model is stored in exactly one place, on
which tables, reading and writing agree, and every entry of a record that names a field is written
to exactly one part. -/
theorem field_stored_once {r : Registry} {s : Schema} (hs : s ∈ r.schemas)
    (hnames : (s.fields.map Field.name).Nodup) (d : Dialect) :
    (∀ f ∈ s.fields, ∃! p, s.Stores d f p) ∧ ∀ value, s.RoutesOnce value := by
  refine ⟨fun f hf => ?_, Schema.routesOnce hnames⟩
  have hfield := Schema.field?_name_self hnames hf
  obtain ⟨p, hp⟩ : ∃ p, s.Stores d f p := by
    cases hcolumn : f.hasColumn with
    | false =>
      have hkind := Field.kind_ne_scalar_relation (r.checkField_eq_ok hs hf)
      exact ⟨.apart, Schema.storesApart hf hfield hcolumn hkind⟩
    | true =>
      cases hlocalized : f.isLocalized with
      | false => exact ⟨.row, Schema.storesInRow hf hfield hcolumn hlocalized⟩
      | true => exact ⟨.localized, Schema.storesLocalized hf hfield hlocalized⟩
  exact ⟨p, hp, fun q hq => Schema.Stores.unique hq hp⟩

namespace Sample

def article : Schema where
  name := "Article"
  fields := [
    { name := "code", type := .string, primary := true, multilingual := true },
    { name := "body", type := .text, multilingual := true },
    .ofRelation "author" "Article" .oneToOne,
    .ofRelation "sources" "Article" .manyToMany,
    .ofList "tags" .string]

def articles : Registry := ⟨[article], rfl⟩

end Sample

open Sample in
theorem field_stored_once_of_articles :
    article ∈ articles.schemas ∧ (article.fields.map Field.name).Nodup ∧
    (∃! p, article.Stores .mysql (.ofRelation "sources" "Article" .manyToMany) p) ∧
    article.RoutesOnce [("body", .str "text"), ("tags", .arr []), ("title", .null)] := by
  have hmem : article ∈ articles.schemas := List.mem_cons_self ..
  have hnames : (article.fields.map Field.name).Nodup := by decide
  obtain ⟨hstored, hrouted⟩ := field_stored_once hmem hnames .mysql
  exact ⟨hmem, hnames, hstored _ (by simp [article]), hrouted _⟩

end EntityStore
