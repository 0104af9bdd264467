import EntityStore.Predicate
import EntityStore.Proofs.Storage.Columns

/-!
The columns that the tables of a registry have: those of fields in the own tables and in the tables
of localized values, the keys of both, and those of the tables that are made for relations and
lists.
-/
namespace EntityStore

/-- The columns that the models of a registry provide for, by the names of their tables. -/
inductive Registry.Holds (r : Registry) : String → String → Prop
  | own {s : Schema} {f : Field} : s ∈ r.schemas → f ∈ s.ownFields → Holds r s.name f.name
  | key {s : Schema} : s ∈ r.schemas → Holds r s.name s.primaryKey
  | localized {s : Schema} {f : Field} : s ∈ r.schemas → f ∈ s.localizedFields →
    Holds r (Schema.localizedTable s.name) f.name
  | localizedKey {s : Schema} {f : Field} : s ∈ r.schemas → f ∈ s.localizedFields →
    Holds r (Schema.localizedTable s.name) s.primaryKey
  | auxiliary {s a : Schema} {f g : Field} : s ∈ r.schemas → f ∈ s.fields →
    Schema.auxiliaryOf? s.name f = some a → g ∈ a.fields → Holds r a.name g.name

def Registry.HoldsKeys (r : Registry) : Prop :=
  ∀ s ∈ r.schemas, ∀ f, s.primaryField? = some f → f ∈ s.ownFields

def Provides (tables : List Table) (table column : String) : Prop :=
  ∃ t ∈ tables, t.name = table ∧ ∃ c ∈ t.columns, c.name = column

namespace Schema

variable {s : Schema} {d : Dialect}

theorem mem_ownFields {f : Field} :
    f ∈ s.ownFields ↔ f ∈ s.fields ∧ f.hasColumn = true ∧ f.isLocalized = false := by
  simp [ownFields]

theorem mem_localizedFields {f : Field} :
    f ∈ s.localizedFields ↔ f ∈ s.fields ∧ f.isLocalized = true := by
  simp [localizedFields]

theorem ownTable_mem (s : Schema) (d : Dialect) : s.ownTable d ∈ s.ownTables d :=
  List.mem_cons_self ..

theorem localized?_name {t : Table} (h : s.localized? d = some t) :
    t.name = localizedTable s.name := by
  unfold localized? at h
  split at h
  · cases h
  · cases h
    rfl

/-- The key of a model has a column. -/
theorem keyField_hasColumn (h : ∀ f, s.primaryField? = some f → f ∈ s.ownFields) :
    s.keyField.hasColumn = true ∧ s.keyField.name = s.primaryKey := by
  unfold keyField primaryKey
  cases hkey : s.primaryField? with
  | none => exact ⟨rfl, rfl⟩
  | some f => exact ⟨(mem_ownFields.mp (h f hkey)).2.1, rfl⟩

theorem ownField_provided {f : Field} (hf : f ∈ s.ownFields) :
    ∃ c ∈ (s.ownTable d).columns, c.name = f.name := by
  obtain ⟨hmem, hcolumn, hown⟩ := mem_ownFields.mp hf
  obtain ⟨c, hc, hname⟩ := Field.exists_columnWith? hcolumn f.primary d
  exact ⟨c, mem_ownTable hmem hown hc, hname⟩

theorem key_provided (h : ∀ f, s.primaryField? = some f → f ∈ s.ownFields) :
    ∃ c ∈ (s.ownTable d).columns, c.name = s.primaryKey := by
  cases hkey : s.primaryField? with
  | some f =>
    have hname : s.primaryKey = f.name := by rw [primaryKey, hkey]
    rw [hname]
    exact ownField_provided (h f hkey)
  | none =>
    obtain ⟨hcolumn, hname⟩ := keyField_hasColumn h
    obtain ⟨c, hc, hcname⟩ := Field.exists_columnWith? hcolumn s.keyField.primary d
    refine ⟨c, List.mem_append_left _ ?_, hcname.trans hname⟩
    rw [addedKey, hkey, Option.mem_toList]
    exact hc

theorem localized_provided {f : Field} (hf : f ∈ s.localizedFields) :
    ∃ t, s.localized? d = some t ∧ ∃ c ∈ t.columns, c.name = f.name := by
  obtain ⟨hmem, hlocalized⟩ := mem_localizedFields.mp hf
  obtain ⟨c, hc, hname⟩ :=
    Field.exists_columnWith? (Field.hasColumn_of_isLocalized hlocalized) f.primary d
  obtain ⟨t, ht, hmem⟩ := mem_localized? hmem hlocalized hc
  exact ⟨t, ht, c, hmem, hname⟩

theorem localizedKey_provided (h : ∀ f, s.primaryField? = some f → f ∈ s.ownFields) {t : Table}
    (ht : s.localized? d = some t) : ∃ c ∈ t.columns, c.name = s.primaryKey := by
  obtain ⟨hcolumn, hname⟩ := keyField_hasColumn h
  obtain ⟨c, hc, hcname⟩ := Field.exists_columnWith? hcolumn false d
  refine ⟨c, ?_, hcname.trans hname⟩
  unfold localized? at ht
  split at ht
  · cases ht
  · cases ht
    exact List.mem_append_left _ (Option.mem_toList.mpr hc)

/-- A list that passes its check holds scalars. -/
theorem items_scalar {model : String} {models : List String} {f : Field} {items : FieldType}
    (hf : checkField models model f = .ok ()) (hkind : f.kind = .list items) :
    items ≠ .relation ∧ items ≠ .list := by
  unfold Field.kind at hkind
  split at hkind
  · split at hkind <;> cases hkind
  · next htype =>
    cases hkind
    unfold checkField at hf
    rw [htype] at hf
    cases hitems : f.items with
    | none => exact ⟨by simp, by simp⟩
    | some t =>
      rw [hitems] at hf
      cases t <;> first | exact ⟨by decide, by decide⟩ | simp at hf
  · cases hkind

/-- The tables that are made for fields hold their fields in columns of their own. -/
theorem auxiliary_ownFields {model : String} {models : List String} {f : Field} {a : Schema}
    (hf : checkField models model f = .ok ()) (ha : auxiliaryOf? model f = some a) :
    ∀ g ∈ a.fields, g ∈ a.ownFields := by
  intro g hg
  refine mem_ownFields.mpr ⟨hg, ?_⟩
  unfold auxiliaryOf? at ha
  split at ha
  · cases ha
    simp only [List.mem_cons, List.not_mem_nil, or_false] at hg
    rcases hg with rfl | rfl | rfl <;> exact ⟨rfl, rfl⟩
  · next items hkind =>
    cases ha
    simp only [List.mem_cons, List.not_mem_nil, or_false] at hg
    rcases hg with rfl | rfl | rfl
    · exact ⟨rfl, rfl⟩
    · exact ⟨rfl, rfl⟩
    · obtain ⟨hrelation, hlist⟩ := items_scalar hf hkind
      cases items <;> first | exact ⟨rfl, rfl⟩ | exact absurd rfl hrelation | exact absurd rfl hlist
  all_goals cases ha

end Schema

namespace Registry

variable {r : Registry} {d : Dialect}

theorem ownTables_mem {s : Schema} (hs : s ∈ r.schemas) {t : Table} (ht : t ∈ s.ownTables d) :
    t ∈ r.tables d :=
  List.mem_flatMap.mpr ⟨s, hs, List.mem_append_left _ ht⟩

theorem auxiliary_mem {s a : Schema} {f : Field} (hs : s ∈ r.schemas) (hf : f ∈ s.fields)
    (ha : Schema.auxiliaryOf? s.name f = some a) : a.ownTable d ∈ r.tables d := by
  refine List.mem_flatMap.mpr ⟨s, hs, List.mem_append_right _ ?_⟩
  exact List.mem_flatMap.mpr ⟨a, List.mem_filterMap.mpr ⟨f, hf, ha⟩, a.ownTable_mem d⟩

/-- What the models provide for is a column of a table that is made. -/
theorem Holds.provided (hkeys : r.HoldsKeys) (d : Dialect) {table column : String}
    (h : r.Holds table column) : Provides (r.tables d) table column := by
  cases h with
  | @own s f hs hf =>
    exact ⟨s.ownTable d, ownTables_mem hs (s.ownTable_mem d), rfl, Schema.ownField_provided hf⟩
  | @key s hs =>
    exact ⟨s.ownTable d, ownTables_mem hs (s.ownTable_mem d), rfl, Schema.key_provided (hkeys s hs)⟩
  | @localized s f hs hf =>
    obtain ⟨t, ht, hcolumn⟩ := Schema.localized_provided (d := d) hf
    have hmem : t ∈ s.ownTables d := List.mem_cons_of_mem _ (Option.mem_toList.mpr ht)
    exact ⟨t, ownTables_mem hs hmem, Schema.localized?_name ht, hcolumn⟩
  | @localizedKey s f hs hf =>
    obtain ⟨t, ht, -⟩ := Schema.localized_provided (d := d) hf
    have hmem : t ∈ s.ownTables d := List.mem_cons_of_mem _ (Option.mem_toList.mpr ht)
    exact ⟨t, ownTables_mem hs hmem, Schema.localized?_name ht,
      Schema.localizedKey_provided (hkeys s hs) ht⟩
  | @auxiliary s a f g hs hf ha hg =>
    have hown := Schema.auxiliary_ownFields (r.checkField_eq_ok hs hf) ha g hg
    exact ⟨a.ownTable d, auxiliary_mem hs hf ha, rfl, Schema.ownField_provided hown⟩

section Fields

variable {s : Schema} {f : Field}

/-- A reference holds the key of another row in a column of the own table. -/
theorem holds_reference (hs : s ∈ r.schemas) {f : Field} (hf : f ∈ s.fields)
    (hreference : f.isReference = true) : r.Holds s.name f.name := by
  refine .own hs (Schema.mem_ownFields.mpr ⟨hf, ?_⟩)
  unfold Field.isReference at hreference
  unfold Field.hasColumn Field.isLocalized
  cases hkind : f.kind <;> simp_all [FieldKind.reference?]

theorem holds_list (hs : s ∈ r.schemas) (hf : f ∈ s.fields) (hlist : f.isList = true) :
    r.Holds (Schema.listTable s.name f.name) Schema.listOwner ∧
    r.Holds (Schema.listTable s.name f.name) Schema.listValue ∧
    r.Holds (Schema.listTable s.name f.name) "id" := by
  unfold Field.isList at hlist
  split at hlist
  · next items hkind =>
    have ha : Schema.auxiliaryOf? s.name f = some ⟨Schema.listTable s.name f.name,
        [Schema.generatedKey, { name := Schema.listOwner, type := .integer, required := true },
          { name := Schema.listValue, type := items, required := true }]⟩ := by
      simp only [Schema.auxiliaryOf?, hkind]
    have hheld := fun g => Holds.auxiliary (g := g) hs hf ha
    exact ⟨hheld _ (.tail _ (.head _)), hheld _ (.tail _ (.tail _ (.head _))), hheld _ (.head _)⟩
  · cases hlist

theorem holds_links (hs : s ∈ r.schemas) (hf : f ∈ s.fields) {relation : Relation}
    (hkind : f.kind = .manyToMany relation) :
    r.Holds (JoinTable.of s.name f.name relation.model).name
      (JoinTable.of s.name f.name relation.model).owner ∧
    r.Holds (JoinTable.of s.name f.name relation.model).name
      (JoinTable.of s.name f.name relation.model).related ∧
    r.Holds (JoinTable.of s.name f.name relation.model).name "id" := by
  have ha : Schema.auxiliaryOf? s.name f = some ⟨(JoinTable.of s.name f.name relation.model).name,
      [Schema.generatedKey,
        { name := (JoinTable.of s.name f.name relation.model).owner, type := .integer,
          required := true },
        { name := (JoinTable.of s.name f.name relation.model).related, type := .integer,
          required := true }]⟩ := by
    simp only [Schema.auxiliaryOf?, hkind]
  have hheld := fun g => Holds.auxiliary (g := g) hs hf ha
  exact ⟨hheld _ (.tail _ (.head _)), hheld _ (.tail _ (.tail _ (.head _))), hheld _ (.head _)⟩

end Fields

end Registry

end EntityStore
