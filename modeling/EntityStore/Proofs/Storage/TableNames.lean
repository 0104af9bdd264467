import EntityStore.Proofs.Storage.Placement
import EntityStore.Proofs.Storage.Tables
import Mathlib.Data.List.Pairwise

/-!
The names of the tables that the models of a registry need. The names of tables that are made for
one model differ where its fields differ up to the case of their first characters; those of tables
of two models can meet only where the name of one model begins with that of the other.
-/
namespace EntityStore

def Field.isManyToMany (f : Field) : Bool :=
  match f.kind with
  | .manyToMany _ => true
  | _ => false

namespace Schema

def linkFields (s : Schema) : List Field :=
  s.fields.filter Field.isManyToMany

def linkTable (model field : String) : String :=
  model ++ "Has" ++ Text.upperFirst field

def auxiliaryNames (s : Schema) : List String :=
  s.fields.filterMap (auxiliaryName? s.name)

def derivedNames (s : Schema) : List String :=
  (if s.localizedFields.isEmpty then [] else [localizedTable s.name]) ++ s.auxiliaryNames

section Tables

variable {s : Schema} {d : Dialect}

theorem localized?_of_nil (h : s.localizedFields = []) : s.localized? d = none := by
  unfold localizedFields at h
  simp [localized?, h]

theorem exists_localized? (h : s.localizedFields ≠ []) : ∃ t, s.localized? d = some t := by
  obtain ⟨f, rest, hfields⟩ := List.exists_cons_of_ne_nil h
  obtain ⟨t, ht, -⟩ := localized_provided (s := s) (d := d) (hfields ▸ List.mem_cons_self ..)
  exact ⟨t, ht⟩

theorem names_ownTables (s : Schema) (d : Dialect) : (s.ownTables d).map Table.name =
    s.name :: if s.localizedFields.isEmpty then [] else [localizedTable s.name] := by
  by_cases hnil : s.localizedFields = []
  · simp [ownTables, ownTable, hnil, localized?_of_nil hnil]
  · obtain ⟨t, ht⟩ := exists_localized? (d := d) hnil
    simp [ownTables, ownTable, hnil, ht, localized?_name ht]

theorem name_auxiliaryOf? (model : String) (f : Field) :
    (auxiliaryOf? model f).map Schema.name = auxiliaryName? model f := by
  unfold auxiliaryOf? auxiliaryName?
  cases f.kind <;> rfl

/-- The tables that are made for fields hold nothing that is localized. -/
theorem localizedFields_auxiliaryOf? {model : String} {f : Field} {a : Schema}
    (h : auxiliaryOf? model f = some a) : a.localizedFields = [] := by
  unfold auxiliaryOf? at h
  split at h
  · cases h
    rfl
  · cases h
    rfl
  all_goals cases h

theorem map_name_auxiliary (s : Schema) : s.auxiliary.map Schema.name = s.auxiliaryNames := by
  rw [auxiliary, List.map_filterMap]
  exact congrArg (fun g => s.fields.filterMap g) (funext (name_auxiliaryOf? s.name))

theorem names_auxiliaryTables (s : Schema) (d : Dialect) :
    (s.auxiliary.flatMap fun a => a.ownTables d).map Table.name = s.auxiliaryNames := by
  have hown : ∀ a ∈ s.auxiliary, (a.ownTables d).map Table.name = [a.name] := by
    intro a ha
    obtain ⟨f, -, hf⟩ := List.mem_filterMap.mp ha
    simp [names_ownTables, localizedFields_auxiliaryOf? hf]
  rw [List.map_flatMap, List.flatMap_congr hown, ← List.map_eq_flatMap, map_name_auxiliary]

/-- The own table of a model is made first. -/
theorem names_tables (s : Schema) (d : Dialect) :
    (s.tables d).map Table.name = s.name :: s.derivedNames := by
  rw [tables, List.map_append, names_ownTables, names_auxiliaryTables, derivedNames,
    List.cons_append]

end Tables

section Shapes

theorem linkTable_inj {model a b : String} :
    linkTable model a = linkTable model b ↔ Text.upperFirst a = Text.upperFirst b :=
  String.append_right_inj _

theorem listTable_inj {model a b : String} :
    listTable model a = listTable model b ↔ Text.upperFirst a = Text.upperFirst b := by
  rw [listTable, listTable, String.append_left_inj, String.append_right_inj]

theorem linkTable_eq_listTable {model a b : String} : linkTable model a = listTable model b ↔
    "Has" ++ Text.upperFirst a = Text.upperFirst b ++ "List" := by
  rw [linkTable, listTable, String.append_assoc, String.append_assoc, String.append_right_inj]

theorem localizedTable_inj {model other : String} :
    localizedTable model = localizedTable other ↔ model = other :=
  String.append_left_inj _

theorem localizedTable_ne_linkTable (model field : String) :
    localizedTable model ≠ linkTable model field := by
  intro h
  rw [localizedTable, linkTable, String.append_assoc, String.append_right_inj] at h
  have hfirst := congrArg (fun t => t.toList.head?) h
  simp at hfirst

/-- The one ends with an n, the other with a t. -/
theorem localizedTable_ne_listTable (model other field : String) :
    localizedTable model ≠ listTable other field := by
  intro h
  have hlast := congrArg (fun t => t.toList.getLast?) h
  simp [localizedTable, listTable] at hlast

end Shapes

section Derived

variable {s : Schema} {n : String}

/-- The tables for fields are those of links and those of lists, in another order. -/
theorem auxiliaryNames_perm (s : Schema) :
    s.auxiliaryNames.Perm ((s.linkFields.map fun f => linkTable s.name f.name) ++
      s.listFields.map fun f => listTable s.name f.name) := by
  unfold auxiliaryNames linkFields listFields
  induction s.fields with
  | nil => exact .nil
  | cons f rest ih =>
    rw [List.filterMap_cons, List.filter_cons, List.filter_cons]
    cases hkind : f.kind with
    | manyToMany relation =>
      simp only [auxiliaryName?, Field.isManyToMany, Field.isList, hkind, ↓reduceIte,
        Bool.false_eq_true]
      exact ih.cons _
    | list items =>
      simp only [auxiliaryName?, Field.isManyToMany, Field.isList, hkind, ↓reduceIte,
        Bool.false_eq_true]
      exact (ih.cons _).trans List.perm_middle.symm
    | _ => simpa [auxiliaryName?, Field.isManyToMany, Field.isList, hkind] using ih

theorem mem_derivedNames : n ∈ s.derivedNames ↔
    s.localizedFields ≠ [] ∧ n = localizedTable s.name ∨
      (∃ f ∈ s.linkFields, n = linkTable s.name f.name) ∨
      ∃ f ∈ s.listFields, n = listTable s.name f.name := by
  rw [derivedNames, List.mem_append, s.auxiliaryNames_perm.mem_iff, List.mem_append]
  by_cases hnil : s.localizedFields = []
  · simp [hnil, eq_comm (a := n)]
  · simp [hnil, eq_comm (a := n)]

/-- The name of a table that is made for a model is longer than that of the model, and begins
with it. -/
theorem prefix_of_mem_derivedNames (h : n ∈ s.derivedNames) :
    s.name.toList <+: n.toList ∧ n ≠ s.name := by
  obtain ⟨suffix, hne, rfl⟩ : ∃ suffix, suffix ≠ "" ∧ n = s.name ++ suffix := by
    rcases mem_derivedNames.mp h with ⟨-, rfl⟩ | ⟨f, -, rfl⟩ | ⟨f, -, rfl⟩
    · exact ⟨"_translation", by decide, rfl⟩
    · exact ⟨"Has" ++ Text.upperFirst f.name, by simp, String.append_assoc⟩
    · exact ⟨Text.upperFirst f.name ++ "List", by simp, String.append_assoc⟩
  refine ⟨?_, fun heq => hne ?_⟩
  · rw [String.toList_append]
    exact List.prefix_append ..
  · exact (String.append_right_inj s.name).mp (heq.trans String.append_empty.symm)

end Derived

/-- The fields of a model have tables of different names: the names of its relations differ up to
the case of their first characters, those of its lists do, and none of the relations is called as
one of the lists makes it. -/
structure FieldsApart (s : Schema) : Prop where
  links : (s.linkFields.map fun f => Text.upperFirst f.name).Nodup
  lists : (s.listFields.map fun f => Text.upperFirst f.name).Nodup
  mixed : ∀ f ∈ s.linkFields, ∀ g ∈ s.listFields,
    "Has" ++ Text.upperFirst f.name ≠ Text.upperFirst g.name ++ "List"

theorem auxiliaryNames_nodup_iff {s : Schema} : s.auxiliaryNames.Nodup ↔ s.FieldsApart := by
  have hlinks : (s.linkFields.map fun f => linkTable s.name f.name).Nodup ↔
      (s.linkFields.map fun f => Text.upperFirst f.name).Nodup := by
    simp only [List.Nodup, List.pairwise_map, ne_eq, linkTable_inj]
  have hlists : (s.listFields.map fun f => listTable s.name f.name).Nodup ↔
      (s.listFields.map fun f => Text.upperFirst f.name).Nodup := by
    simp only [List.Nodup, List.pairwise_map, ne_eq, listTable_inj]
  rw [s.auxiliaryNames_perm.nodup_iff, List.nodup_append, hlinks, hlists]
  simp only [List.forall_mem_map, ne_eq, linkTable_eq_listTable]
  exact ⟨fun ⟨h, h', h''⟩ => ⟨h, h', h''⟩, fun ⟨h, h', h''⟩ => ⟨h, h', h''⟩⟩

theorem names_nodup_iff {s : Schema} : (s.name :: s.derivedNames).Nodup ↔ s.FieldsApart := by
  have hself : s.name ∉ s.derivedNames := fun h => (prefix_of_mem_derivedNames h).2 rfl
  rw [List.nodup_cons, ← auxiliaryNames_nodup_iff]
  refine ⟨fun ⟨_, h⟩ => (List.nodup_append.mp h).2.1, fun h => ⟨hself, ?_⟩⟩
  refine List.nodup_append.mpr ⟨?_, h, ?_⟩
  · split <;> simp
  · intro n hn m hm heq
    subst heq
    split at hn
    · cases hn
    · rw [List.mem_singleton.mp hn, s.auxiliaryNames_perm.mem_iff, List.mem_append] at hm
      simp only [List.mem_map] at hm
      rcases hm with ⟨f, -, hlink⟩ | ⟨f, -, hlist⟩
      · exact localizedTable_ne_linkTable _ _ hlink.symm
      · exact localizedTable_ne_listTable _ _ _ hlist.symm

end Schema

namespace Registry

variable {r : Registry}

/-- The tables of a registry have different names: those for the fields of each model, and where
two models are concerned, no model goes by the name of a table made for another, and no table of
links or of a list by the name of one made for another. Tables of localized values differ anyway,
and do from lists. -/
structure NamesApart (r : Registry) : Prop where
  fields : ∀ s ∈ r.schemas, s.FieldsApart
  models : ∀ s ∈ r.schemas, ∀ t ∈ r.schemas, s.name ≠ t.name → s.name ∉ t.derivedNames
  links : ∀ s ∈ r.schemas, ∀ t ∈ r.schemas, s.name ≠ t.name →
    ∀ f ∈ s.linkFields, Schema.linkTable s.name f.name ∉ t.derivedNames
  lists : ∀ s ∈ r.schemas, ∀ t ∈ r.schemas, s.name ≠ t.name →
    ∀ f ∈ s.listFields, ∀ g ∈ t.listFields,
      Schema.listTable s.name f.name ≠ Schema.listTable t.name g.name

theorem names_tables (r : Registry) (d : Dialect) :
    (r.tables d).map Table.name = r.schemas.flatMap fun s => s.name :: s.derivedNames := by
  unfold tables
  rw [List.map_flatMap]
  exact congrArg r.schemas.flatMap (funext fun s => s.names_tables d)

theorem names_auxiliary (r : Registry) :
    r.auxiliary.map Schema.name = r.schemas.flatMap Schema.auxiliaryNames := by
  rw [auxiliary, List.map_flatMap]
  exact congrArg r.schemas.flatMap (funext Schema.map_name_auxiliary)

/-- Models of a registry are the same where their names are. -/
theorem eq_of_name_eq {s t : Schema} (hs : s ∈ r.schemas) (ht : t ∈ r.schemas)
    (h : s.name = t.name) : s = t :=
  List.inj_on_of_nodup_map r.names_nodup hs ht h

theorem NamesApart.disjoint (h : r.NamesApart) {s t : Schema} (hs : s ∈ r.schemas)
    (ht : t ∈ r.schemas) (hne : s.name ≠ t.name) :
    List.Disjoint (s.name :: s.derivedNames) (t.name :: t.derivedNames) := by
  intro n hn hm
  rcases List.mem_cons.mp hn with rfl | hn
  · rcases List.mem_cons.mp hm with heq | hm
    · exact hne heq
    · exact h.models s hs t ht hne hm
  · rcases List.mem_cons.mp hm with rfl | hm
    · exact h.models t ht s hs hne.symm hn
    · rcases Schema.mem_derivedNames.mp hn with ⟨-, rfl⟩ | ⟨f, hf, rfl⟩ | ⟨f, hf, rfl⟩
      · -- localized values: those of another model, or links
        rcases Schema.mem_derivedNames.mp hm with ⟨-, heq⟩ | ⟨g, hg, heq⟩ | ⟨g, -, heq⟩
        · exact hne (Schema.localizedTable_inj.mp heq)
        · exact h.links t ht s hs hne.symm g hg (heq ▸ hn)
        · exact Schema.localizedTable_ne_listTable _ _ _ heq
      · exact h.links s hs t ht hne f hf hm
      · -- a list: no localized values, but links or another list
        rcases Schema.mem_derivedNames.mp hm with ⟨-, heq⟩ | ⟨g, hg, heq⟩ | ⟨g, hg, heq⟩
        · exact Schema.localizedTable_ne_listTable _ _ _ heq.symm
        · exact h.links t ht s hs hne.symm g hg (heq ▸ hn)
        · exact h.lists s hs t ht hne f hf g hg heq

theorem names_tables_nodup_iff (r : Registry) (d : Dialect) :
    ((r.tables d).map Table.name).Nodup ↔ r.NamesApart := by
  rw [names_tables, List.nodup_flatMap]
  constructor
  · rintro ⟨hmodel, hpairs⟩
    have hdisjoint : ∀ s ∈ r.schemas, ∀ t ∈ r.schemas, s.name ≠ t.name →
        List.Disjoint (s.name :: s.derivedNames) (t.name :: t.derivedNames) := by
      intro s hs t ht hne
      have hsymm : Std.Symm (Function.onFun List.Disjoint fun s : Schema =>
          s.name :: s.derivedNames) := ⟨fun _ _ h => List.disjoint_symm h⟩
      exact hpairs.forall hs ht fun heq => hne (heq ▸ rfl)
    refine ⟨fun s hs => Schema.names_nodup_iff.mp (hmodel s hs), ?_, ?_, ?_⟩
    · intro s hs t ht hne hmem
      exact hdisjoint s hs t ht hne (List.mem_cons_self ..) (List.mem_cons_of_mem _ hmem)
    · intro s hs t ht hne f hf hmem
      have hlink : Schema.linkTable s.name f.name ∈ s.derivedNames :=
        Schema.mem_derivedNames.mpr (.inr (.inl ⟨f, hf, rfl⟩))
      exact hdisjoint s hs t ht hne (List.mem_cons_of_mem _ hlink) (List.mem_cons_of_mem _ hmem)
    · intro s hs t ht hne f hf g hg heq
      have hlist : Schema.listTable s.name f.name ∈ s.derivedNames :=
        Schema.mem_derivedNames.mpr (.inr (.inr ⟨f, hf, rfl⟩))
      have hother : Schema.listTable s.name f.name ∈ t.derivedNames :=
        Schema.mem_derivedNames.mpr (.inr (.inr ⟨g, hg, heq⟩))
      exact hdisjoint s hs t ht hne (List.mem_cons_of_mem _ hlist) (List.mem_cons_of_mem _ hother)
  · intro h
    refine ⟨fun s hs => Schema.names_nodup_iff.mpr (h.fields s hs), ?_⟩
    have hmodels : r.schemas.Nodup := List.Nodup.of_map _ r.names_nodup
    refine hmodels.pairwise_of_forall_ne fun s hs t ht hne => ?_
    exact h.disjoint hs ht fun heq => hne (eq_of_name_eq hs ht heq)

/-- Where no model's name begins with that of another, tables of different models have different
names. -/
theorem namesApart_iff_of_no_prefix
    (h : ∀ s ∈ r.schemas, ∀ t ∈ r.schemas, s.name.toList <+: t.name.toList → s.name = t.name) :
    r.NamesApart ↔ ∀ s ∈ r.schemas, s.FieldsApart := by
  have hderived : ∀ s ∈ r.schemas, ∀ t ∈ r.schemas, s.name ≠ t.name →
      ∀ n, s.name.toList <+: n.toList → n ∉ t.derivedNames := by
    intro s hs t ht hne n hn hmem
    obtain ⟨hbegins, -⟩ := Schema.prefix_of_mem_derivedNames hmem
    rcases List.prefix_or_prefix_of_prefix hn hbegins with hst | hts
    · exact hne (h s hs t ht hst)
    · exact hne (h t ht s hs hts).symm
  refine ⟨NamesApart.fields, fun hfields => ⟨hfields, ?_, ?_, ?_⟩⟩
  · intro s hs t ht hne
    exact hderived s hs t ht hne s.name (List.prefix_refl _)
  · intro s hs t ht hne f hf
    have hlink := Schema.mem_derivedNames.mpr (.inr (.inl ⟨f, hf, rfl⟩))
    exact hderived s hs t ht hne _ (Schema.prefix_of_mem_derivedNames hlink).1
  · intro s hs t ht hne f hf g hg heq
    have hlist := Schema.mem_derivedNames.mpr (.inr (.inr ⟨f, hf, rfl⟩))
    refine hderived s hs t ht hne _ (Schema.prefix_of_mem_derivedNames hlist).1 ?_
    exact Schema.mem_derivedNames.mpr (.inr (.inr ⟨g, hg, heq⟩))

end Registry

end EntityStore
