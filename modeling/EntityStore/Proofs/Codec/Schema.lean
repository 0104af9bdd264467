import EntityStore.Proofs.Codec.Field
import EntityStore.Proofs.Registration
import EntityStore.Table

/-!
Models are read back with their fields, from documents of either format. They make up a registry as
the models do that they were written of, and need the same tables.
-/
open EntityStore.Field

namespace EntityStore

namespace Schema

variable {s : Schema} {schemas : List Schema}

def readBack (s : Schema) : Schema :=
  { s with fields := s.fields.map Field.readBack }

def IsCanonical (s : Schema) : Prop :=
  ∀ f ∈ s.fields, f.IsCanonical

theorem ofDocument?_toJson (format : Format) (h : s.IsCanonical) :
    ofDocument? format s.toJson = some s.readBack := by
  have hfields : Json.array? Field.ofJson? (.arr (s.fields.map Field.toJson)) =
      some (s.fields.map Field.readBack) :=
    Json.array?_map_of fun f hf => ofJson?_toJson_iff.mpr (h f hf)
  simp [toJson, ofDocument?, Json.fields?, Record.required?, Record.defaulted?, Record.member?,
    Json.string?, hfields, readBack]

section Tables

theorem primaryField?_readBack (s : Schema) :
    s.readBack.primaryField? = s.primaryField?.map Field.readBack :=
  List.find?_map ..

theorem keyField_readBack (s : Schema) : s.readBack.keyField = s.keyField.readBack := by
  rw [keyField, keyField, primaryField?_readBack]
  cases s.primaryField? <;> rfl

theorem addedKey_readBack (s : Schema) (d : Dialect) : s.readBack.addedKey d = s.addedKey d := by
  rw [addedKey, addedKey, primaryField?_readBack, keyField_readBack, (alike_readBack _).column]
  cases s.primaryField? <;> rfl

/-- Of the fields that are read back the same are kept, and have the same columns. -/
theorem columns_readBack (fields : List Field) (keep : Field → Bool)
    (hkeep : ∀ f, keep f.readBack = keep f) (d : Dialect) :
    ((fields.map Field.readBack).filter keep).filterMap (fun f => f.column? d) =
      (fields.filter keep).filterMap fun f => f.column? d := by
  rw [List.filter_map, List.filterMap_map]
  have hkept : keep ∘ Field.readBack = keep := funext hkeep
  have hcolumn : (fun f => f.column? d) ∘ Field.readBack = fun f => f.column? d :=
    funext fun f => (alike_readBack f).column d
  rw [hkept, hcolumn]

theorem ownTables_readBack (s : Schema) (d : Dialect) :
    s.readBack.ownTables d = s.ownTables d := by
  have hown : s.readBack.ownTable d = s.ownTable d := by
    rw [ownTable, ownTable, addedKey_readBack, keyField_readBack]
    rw [show s.readBack.fields = s.fields.map Field.readBack from rfl,
      columns_readBack s.fields _ fun f => rfl]
    rfl
  have hlocalized : s.readBack.localized? d = s.localized? d := by
    rw [localized?, localized?, keyField_readBack, (alike_readBack _).keyColumn]
    rw [show s.readBack.fields = s.fields.map Field.readBack from rfl,
      columns_readBack s.fields _ fun f => rfl]
    rfl
  rw [ownTables, ownTables, hown, hlocalized]

theorem auxiliary_readBack (s : Schema) : s.readBack.auxiliary = s.auxiliary := by
  rw [auxiliary, auxiliary, readBack, List.filterMap_map]
  rfl

theorem tables_readBack (s : Schema) (d : Dialect) : s.readBack.tables d = s.tables d := by
  rw [tables, tables, ownTables_readBack, auxiliary_readBack]

end Tables

section Checks

theorem checkModelsFrom_readBack (schemas : List Schema) (seen : List String) :
    checkModelsFrom seen (schemas.map readBack) = checkModelsFrom seen schemas := by
  induction schemas generalizing seen with
  | nil => rfl
  | cons s rest ih =>
    have hkeys : s.readBack.primaryFields.length = s.primaryFields.length := by
      rw [primaryFields, readBack, List.filter_map, List.length_map]
      rfl
    rw [List.map_cons, checkModelsFrom, checkModelsFrom, hkeys, ih]
    rfl

theorem checkFields_readBack (models : List String) (schemas : List Schema) :
    checkFields models (schemas.map readBack) = checkFields models schemas := by
  induction schemas with
  | nil => rfl
  | cons s rest ih =>
    rw [List.map_cons, checkFields, checkFields, ih, readBack, List.forM_eq_forM, List.forM_map]
    rfl

theorem check_readBack (schemas : List Schema) :
    check (schemas.map readBack) = check schemas := by
  rw [check, check, checkModelsFrom_readBack, checkFields_readBack, List.map_map]
  rfl

end Checks

end Schema

/-- Models that are read back become a registry when those do that they were written of, and then
they need the same tables. -/
theorem Registry.exists_readBack {schemas : List Schema} {r : Registry}
    (h : ofSchemas schemas = .ok r) :
    ∃ r', ofSchemas (schemas.map Schema.readBack) = .ok r' ∧ ∀ d, r'.tables d = r.tables d := by
  obtain ⟨hcheck, hr⟩ := ofSchemas_eq_ok_iff.mp h
  have hback : Schema.check (schemas.map Schema.readBack) = .ok () :=
    (Schema.check_readBack schemas).trans hcheck
  refine ⟨⟨_, hback⟩, ofSchemas_eq_ok_iff.mpr ⟨hback, rfl⟩, fun d => ?_⟩
  rw [tables, tables, hr, List.flatMap_map]
  exact List.flatMap_congr fun s _ => s.tables_readBack d

end EntityStore
