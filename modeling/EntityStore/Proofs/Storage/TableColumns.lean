import EntityStore.Proofs.Storage.LinkColumns
import EntityStore.Proofs.Storage.TableNames

/-!
The columns and keys of the tables of a registry. A key that is added meets a field of its name, and
a key that is a field needs a column; in a table of links the key meets the name of a model.
-/
namespace EntityStore

namespace Schema

variable {s : Schema} {d : Dialect}

theorem names_columns (fields : List Field) (d : Dialect) :
    (fields.filterMap fun f => f.column? d).map Column.name =
      (fields.filter Field.hasColumn).map Field.name := by
  induction fields with
  | nil => rfl
  | cons f rest ih =>
    cases hcolumn : f.hasColumn with
    | false => simp [Field.column?_eq_none hcolumn, hcolumn, ih]
    | true =>
      obtain ⟨c, hc, hname⟩ := Field.exists_columnWith? hcolumn f.primary d
      have hc : f.column? d = some c := hc
      simp [hc, hname, hcolumn, ih]

def addedNames (s : Schema) : List String :=
  match s.primaryField? with
  | some _ => []
  | none => [defaultKey]

theorem keyField_of_none (h : s.primaryField? = none) :
    s.keyField.name = defaultKey ∧ s.keyField.hasColumn = true := by
  rw [keyField, h]
  exact ⟨rfl, rfl⟩

theorem names_addedKey (s : Schema) (d : Dialect) :
    (s.addedKey d).map Column.name = s.addedNames := by
  unfold addedKey addedNames
  cases hkey : s.primaryField? with
  | some f => rfl
  | none =>
    obtain ⟨hname, hcolumn⟩ := keyField_of_none hkey
    have hnames := s.keyField.names_columnWith? s.keyField.primary d
    rwa [hcolumn, hname, if_pos rfl] at hnames

theorem names_ownTable (s : Schema) (d : Dialect) :
    (s.ownTable d).columns.map Column.name = s.addedNames ++ s.ownFields.map Field.name := by
  have hown : (s.fields.filter fun f => !f.isLocalized).filter Field.hasColumn = s.ownFields := by
    rw [List.filter_filter, ownFields]
  rw [ownTable, List.map_append, names_addedKey, names_columns, hown]

def copiedNames (s : Schema) : List String :=
  if s.keyField.hasColumn then [s.keyField.name] else []

theorem names_localized? {t : Table} (h : s.localized? d = some t) :
    t.columns.map Column.name = s.copiedNames ++ s.localizedFields.map Field.name ∧
      t.key = s.keyField.name := by
  have hcopied : (s.keyField.keyColumn? d).toList.map Column.name = s.copiedNames :=
    s.keyField.names_columnWith? false d
  have hall : s.localizedFields.filter Field.hasColumn = s.localizedFields := by
    rw [List.filter_eq_self]
    exact fun f hf => Field.hasColumn_of_isLocalized (mem_localizedFields.mp hf).2
  have hfields := names_columns s.localizedFields d
  rw [hall] at hfields
  unfold localized? at h
  split at h
  · cases h
  · cases h
    refine ⟨?_, rfl⟩
    rw [List.map_append, hcopied, ← hfields]
    rfl

section Fields

variable {f : Field}

theorem primaryField?_mem (h : s.primaryField? = some f) : f ∈ s.fields ∧ f.primary = true :=
  ⟨List.mem_of_find?_eq_some h, List.find?_some h⟩

/-- A key that is a field is never localized, and so needs no more than a column. -/
theorem mem_ownFields_of_primary (h : s.primaryField? = some f) :
    f ∈ s.ownFields ↔ f.hasColumn = true := by
  obtain ⟨hmem, hprimary⟩ := primaryField?_mem h
  have hown : f.isLocalized = false := by simp [Field.isLocalized, hprimary]
  simp [mem_ownFields, hmem, hown]

theorem keyField_of_primary (h : s.primaryField? = some f) : s.keyField = f := by
  rw [keyField, h, Option.getD_some]

/-- Where names differ, a field among some of the fields is the only one of its name. -/
theorem mem_of_name_mem {fields : List Field} (hnames : (s.fields.map Field.name).Nodup)
    (hsub : ∀ g ∈ fields, g ∈ s.fields) (hf : f ∈ s.fields) (h : f.name ∈ fields.map Field.name) :
    f ∈ fields := by
  obtain ⟨g, hg, hname⟩ := List.mem_map.mp h
  have hsame : g = f := List.inj_on_of_nodup_map hnames (hsub g hg) hf hname
  exact hsame ▸ hg

theorem ownFields_sub : ∀ g ∈ s.ownFields, g ∈ s.fields :=
  fun _ hg => (mem_ownFields.mp hg).1

theorem localizedFields_sub : ∀ g ∈ s.localizedFields, g ∈ s.fields :=
  fun _ hg => (mem_localizedFields.mp hg).1

end Fields

section Keys

variable (hnames : (s.fields.map Field.name).Nodup)

include hnames

theorem key_mem_ownTable_iff : (s.ownTable d).key ∈ (s.ownTable d).columns.map Column.name ↔
    ∀ f, s.primaryField? = some f → f ∈ s.ownFields := by
  have hkey : (s.ownTable d).key = s.keyField.name := rfl
  rw [names_ownTable, hkey, List.mem_append]
  cases hprimary : s.primaryField? with
  | none => simp [addedNames, hprimary, (keyField_of_none hprimary).1]
  | some f =>
    obtain ⟨hf, -⟩ := primaryField?_mem hprimary
    rw [keyField_of_primary hprimary]
    constructor
    · rintro (hadded | hown) g hg
      · simp [addedNames, hprimary] at hadded
      · cases hg
        exact mem_of_name_mem hnames ownFields_sub hf hown
    · intro h
      exact .inr (List.mem_map_of_mem (h f rfl))

theorem key_mem_localized?_iff {t : Table} (ht : s.localized? d = some t) :
    t.key ∈ t.columns.map Column.name ↔ ∀ f, s.primaryField? = some f → f ∈ s.ownFields := by
  obtain ⟨hcolumns, hkey⟩ := names_localized? ht
  rw [hcolumns, hkey, List.mem_append]
  cases hprimary : s.primaryField? with
  | none =>
    obtain ⟨-, hcolumn⟩ := keyField_of_none hprimary
    simp [copiedNames, hcolumn]
  | some f =>
    obtain ⟨hf, hflag⟩ := primaryField?_mem hprimary
    rw [copiedNames, keyField_of_primary hprimary]
    constructor
    · rintro (hcopied | hlocalized) g hg
      · cases hg
        rw [mem_ownFields_of_primary hprimary]
        by_contra hno
        rw [if_neg hno] at hcopied
        cases hcopied
      · have hmem := mem_of_name_mem hnames localizedFields_sub hf hlocalized
        have hlocal := (mem_localizedFields.mp hmem).2
        simp [Field.isLocalized, hflag] at hlocal
    · intro h
      have hcolumn := (mem_ownFields_of_primary hprimary).mp (h f rfl)
      exact .inl (by simp [hcolumn])

theorem names_ownTable_nodup_iff : ((s.ownTable d).columns.map Column.name).Nodup ↔
    (s.primaryField? = none → defaultKey ∉ s.ownFields.map Field.name) := by
  have hown : (s.ownFields.map Field.name).Nodup :=
    hnames.sublist (List.filter_sublist.map Field.name)
  rw [names_ownTable, addedNames]
  cases s.primaryField? with
  | none => simp [hown]
  | some f => simp [hown]

theorem names_localized?_nodup_iff {t : Table} (ht : s.localized? d = some t) :
    (t.columns.map Column.name).Nodup ↔
      (s.primaryField? = none → defaultKey ∉ s.localizedFields.map Field.name) := by
  have hlocalized : (s.localizedFields.map Field.name).Nodup :=
    hnames.sublist (List.filter_sublist.map Field.name)
  rw [(names_localized? ht).1, copiedNames]
  cases hprimary : s.primaryField? with
  | none =>
    obtain ⟨hname, hcolumn⟩ := keyField_of_none hprimary
    simp only [hcolumn, ↓reduceIte, hname, List.cons_append, List.nil_append, List.nodup_cons,
      hlocalized, and_true, forall_const]
  | some f =>
    obtain ⟨hf, hflag⟩ := primaryField?_mem hprimary
    have hother : f.name ∉ s.localizedFields.map Field.name := by
      intro hmem
      have hlocal := (mem_localizedFields.mp
        (mem_of_name_mem hnames localizedFields_sub hf hmem)).2
      simp [Field.isLocalized, hflag] at hlocal
    rw [keyField_of_primary hprimary]
    split
    · simp [hother, hlocalized]
    · simp [hlocalized]

/-- Where no key is declared, no column of a model is called as the one that is added. -/
theorem keys_apart_iff :
    (((s.ownTable d).columns.map Column.name).Nodup ∧
      ∀ t, s.localized? d = some t → (t.columns.map Column.name).Nodup) ↔
    (s.primaryField? = none → ∀ f ∈ s.fields, f.hasColumn = true →
      f.name ≠ defaultKey) := by
  rw [names_ownTable_nodup_iff hnames]
  constructor
  · rintro ⟨hown, hlocalized⟩ hnone f hf hcolumn heq
    cases hlocal : f.isLocalized with
    | false =>
      have hmem : f ∈ s.ownFields := mem_ownFields.mpr ⟨hf, hcolumn, hlocal⟩
      exact hown hnone (heq ▸ List.mem_map_of_mem hmem)
    | true =>
      have hmem : f ∈ s.localizedFields := mem_localizedFields.mpr ⟨hf, hlocal⟩
      obtain ⟨t, ht⟩ := exists_localized? (d := d) (List.ne_nil_of_mem hmem)
      have hother := (names_localized?_nodup_iff hnames ht).mp (hlocalized t ht) hnone
      exact hother (heq ▸ List.mem_map_of_mem hmem)
  · intro h
    refine ⟨fun hnone hmem => ?_, fun t ht => ?_⟩
    · obtain ⟨f, hf, hname⟩ := List.mem_map.mp hmem
      obtain ⟨hfields, hcolumn, -⟩ := mem_ownFields.mp hf
      exact h hnone f hfields hcolumn hname
    · refine (names_localized?_nodup_iff hnames ht).mpr fun hnone hmem => ?_
      obtain ⟨f, hf, hname⟩ := List.mem_map.mp hmem
      obtain ⟨hfields, hlocal⟩ := mem_localizedFields.mp hf
      exact h hnone f hfields (Field.hasColumn_of_isLocalized hlocal) hname

end Keys

section Auxiliary

variable {a : Schema} {f : Field}

/-- The tables that are made for fields are their own only ones. -/
theorem ownTables_auxiliaryOf? {model : String} (h : auxiliaryOf? model f = some a) :
    a.ownTables d = [a.ownTable d] := by
  rw [ownTables, localized?_of_nil (localizedFields_auxiliaryOf? h), Option.toList_none]

theorem primaryField?_auxiliaryOf? {model : String} (h : auxiliaryOf? model f = some a) :
    a.primaryField? = some generatedKey ∧ generatedKey ∈ a.fields := by
  unfold auxiliaryOf? at h
  split at h
  · cases h
    exact ⟨rfl, List.mem_cons_self ..⟩
  · cases h
    exact ⟨rfl, List.mem_cons_self ..⟩
  all_goals cases h

/-- A table that is made for a field has its fields as columns, and its key among them. -/
theorem names_auxiliaryTable {models : List String} {model : String}
    (hf : checkField models model f = .ok ()) (ha : auxiliaryOf? model f = some a) :
    (a.ownTable d).columns.map Column.name = a.fields.map Field.name ∧
      (a.ownTable d).key ∈ (a.ownTable d).columns.map Column.name := by
  obtain ⟨hprimary, hmem⟩ := primaryField?_auxiliaryOf? ha
  have hown : a.ownFields = a.fields := by
    rw [ownFields, List.filter_eq_self]
    intro g hg
    obtain ⟨-, hcolumn, hlocal⟩ := mem_ownFields.mp (auxiliary_ownFields hf ha g hg)
    simp [hcolumn, hlocal]
  have hcolumns : (a.ownTable d).columns.map Column.name = a.fields.map Field.name := by
    rw [names_ownTable, addedNames, hprimary, hown, List.nil_append]
  have hkey : (a.ownTable d).key = generatedKey.name := by
    rw [← keyField_of_primary hprimary]
    rfl
  refine ⟨hcolumns, ?_⟩
  rw [hcolumns, hkey]
  exact List.mem_map_of_mem hmem

end Auxiliary

end Schema

namespace Registry

variable {r : Registry} {d : Dialect}

/-- The keys that are generated meet no column: where a model declares no key, none of its columns
is called as the one that is added, and no model with a table of links is called so, up to the case
of the first character, nor one that it is linked to. -/
structure ColumnsApart (r : Registry) : Prop where
  keys : ∀ s ∈ r.schemas, s.primaryField? = none →
    ∀ f ∈ s.fields, f.hasColumn = true → f.name ≠ Schema.defaultKey
  links : ∀ s ∈ r.schemas, ∀ f ∈ s.fields, ∀ relation, f.kind = .manyToMany relation →
    Text.lowerFirst s.name ≠ "id" ∧ Text.lowerFirst relation.model ≠ "id"

theorem mem_tables_iff {t : Table} : t ∈ r.tables d ↔ ∃ s ∈ r.schemas,
    t = s.ownTable d ∨ s.localized? d = some t ∨
      ∃ f ∈ s.fields, ∃ a, Schema.auxiliaryOf? s.name f = some a ∧ t = a.ownTable d := by
  have hauxiliary : ∀ s : Schema, (∃ a ∈ s.auxiliary, t ∈ a.ownTables d) ↔
      ∃ f ∈ s.fields, ∃ a, Schema.auxiliaryOf? s.name f = some a ∧ t = a.ownTable d := by
    intro s
    simp only [Schema.auxiliary, List.mem_filterMap]
    constructor
    · rintro ⟨a, ⟨f, hf, ha⟩, ht⟩
      rw [Schema.ownTables_auxiliaryOf? ha, List.mem_singleton] at ht
      exact ⟨f, hf, a, ha, ht⟩
    · rintro ⟨f, hf, a, ha, rfl⟩
      exact ⟨a, ⟨f, hf, ha⟩, a.ownTable_mem d⟩
  simp only [tables, Schema.tables, List.mem_flatMap, List.mem_append, hauxiliary]
  simp only [Schema.ownTables, List.mem_cons, Option.mem_toList, or_assoc]

theorem keys_mem_columns_iff (hnames : ∀ s ∈ r.schemas, (s.fields.map Field.name).Nodup) :
    (∀ t ∈ r.tables d, t.key ∈ t.columns.map Column.name) ↔ r.HoldsKeys := by
  constructor
  · intro h s hs
    exact (Schema.key_mem_ownTable_iff (hnames s hs)).mp
      (h _ (mem_tables_iff.mpr ⟨s, hs, .inl rfl⟩))
  · intro h t ht
    obtain ⟨s, hs, rfl | hlocalized | ⟨f, hf, a, ha, rfl⟩⟩ := mem_tables_iff.mp ht
    · exact (Schema.key_mem_ownTable_iff (hnames s hs)).mpr (h s hs)
    · exact (Schema.key_mem_localized?_iff (hnames s hs) hlocalized).mpr (h s hs)
    · exact (Schema.names_auxiliaryTable (r.checkField_eq_ok hs hf) ha).2

/-- A table of links has columns of different names unless a model is called as its key; a list
always has. -/
theorem names_auxiliaryTable_nodup_iff {s a : Schema} {f : Field} (hs : s ∈ r.schemas)
    (hf : f ∈ s.fields) (ha : Schema.auxiliaryOf? s.name f = some a) :
    ((a.ownTable d).columns.map Column.name).Nodup ↔
      ∀ relation, f.kind = .manyToMany relation →
        Text.lowerFirst s.name ≠ "id" ∧ Text.lowerFirst relation.model ≠ "id" := by
  rw [(Schema.names_auxiliaryTable (r.checkField_eq_ok hs hf) ha).1]
  unfold Schema.auxiliaryOf? at ha
  split at ha
  · next relation hkind =>
    cases ha
    have hcolumns := JoinTable.owner_ne_related s.name f.name relation.model
    simp only [hkind, FieldKind.manyToMany.injEq, forall_eq',
      ← JoinTable.columns_ne_key_iff s.name f.name relation.model]
    simp [Schema.generatedKey, hcolumns, eq_comm (a := "id")]
  · next items hkind =>
    cases ha
    simp only [hkind, reduceCtorEq, false_implies, implies_true, iff_true]
    exact (by decide : ["id", "fk", "value"].Nodup)
  all_goals cases ha

theorem columns_nodup_iff (hnames : ∀ s ∈ r.schemas, (s.fields.map Field.name).Nodup) :
    (∀ t ∈ r.tables d, (t.columns.map Column.name).Nodup) ↔ r.ColumnsApart := by
  constructor
  · intro h
    refine ⟨fun s hs => ?_, fun s hs f hf relation hkind => ?_⟩
    · refine (Schema.keys_apart_iff (d := d) (hnames s hs)).mp ⟨?_, fun t ht => ?_⟩
      · exact h _ (mem_tables_iff.mpr ⟨s, hs, .inl rfl⟩)
      · exact h t (mem_tables_iff.mpr ⟨s, hs, .inr (.inl ht)⟩)
    · obtain ⟨a, ha⟩ : ∃ a, Schema.auxiliaryOf? s.name f = some a :=
        ⟨_, by rw [Schema.auxiliaryOf?, hkind]⟩
      have hmem : a.ownTable d ∈ r.tables d :=
        mem_tables_iff.mpr ⟨s, hs, .inr (.inr ⟨f, hf, a, ha, rfl⟩)⟩
      exact (names_auxiliaryTable_nodup_iff hs hf ha).mp (h _ hmem) relation hkind
  · intro h t ht
    obtain ⟨s, hs, rfl | hlocalized | ⟨f, hf, a, ha, rfl⟩⟩ := mem_tables_iff.mp ht
    · exact ((Schema.keys_apart_iff (hnames s hs)).mpr (h.keys s hs)).1
    · exact ((Schema.keys_apart_iff (hnames s hs)).mpr (h.keys s hs)).2 t hlocalized
    · exact (names_auxiliaryTable_nodup_iff hs hf ha).mpr (h.links s hs f hf)

end Registry

end EntityStore
