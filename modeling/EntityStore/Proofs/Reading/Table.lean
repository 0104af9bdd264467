import EntityStore.Proofs.Reading.Clean
import EntityStore.Table

/-!
The statements that make and drop a table are clean, if the defaults of its columns are. Those of
columns that are made for fields always are.
-/
namespace EntityStore

open Reading

theorem clean_columnType (d : Dialect) (t : ColumnType) : Clean d t.sql := by
  have hnumber : ∀ {open_ close : String} (n : Nat), isThrough open_ = true →
      isBetween close = true → Clean d (open_ ++ toString n ++ close) := fun n hopen hclose =>
    (((cleanThrough_of_isThrough d _ hopen).append (clean_toString d n)).through _ hclose).clean
  cases t with
  | varchar n => exact hnumber n rfl rfl
  | decimal n => exact hnumber n rfl rfl
  | int n => exact hnumber n rfl rfl
  | _ => exact clean_of_isClean d _ rfl

def Column.HasCleanDefault (d : Dialect) (c : Column) : Prop :=
  ∀ literal, c.default = some literal → Clean d literal

private theorem clean_optional (d : Dialect) (present : Bool) {s : String}
    (hs : isClean s = true) (hcut : cuts s.toList = true) :
    Clean d (if present then s else "") ∧ cuts (if present then s else "").toList = true := by
  cases present with
  | true => exact ⟨clean_of_isClean d s hs, hcut⟩
  | false => exact ⟨clean_empty d, rfl⟩

def defaultText : Option String → String
  | some literal => " DEFAULT " ++ literal
  | none => ""

private theorem clean_defaultText {d : Dialect} {default : Option String}
    (h : ∀ literal, default = some literal → Clean d literal) :
    Clean d (defaultText default) ∧ cuts (defaultText default).toList = true := by
  cases default with
  | none => exact ⟨clean_empty d, rfl⟩
  | some literal =>
    exact ⟨(cleanThrough_of_isThrough d " DEFAULT " rfl).append (h literal rfl), cuts_text _ rfl⟩

theorem clean_column {d : Dialect} {c : Column} (h : c.HasCleanDefault d) : Clean d (c.sql d) := by
  have hgeneratedText : isClean (Column.generatedText d) = true := by cases d <;> decide
  have hgeneratedCut : cuts (Column.generatedText d).toList = true := by cases d <;> decide
  have hnull := clean_optional d c.notNull (s := " NOT NULL") rfl rfl
  have hdefault := clean_defaultText h
  have hunique := clean_optional d c.unique (s := " UNIQUE") rfl rfl
  have hgenerated := clean_optional d c.generated hgeneratedText hgeneratedCut
  unfold Column.sql
  refine Clean.append ?_ hgenerated.1 hgenerated.2
  refine Clean.append ?_ hunique.1 hunique.2
  refine Clean.append ?_ hdefault.1 hdefault.2
  refine Clean.append ?_ hnull.1 hnull.2
  exact ((clean_quote d c.name).through " " rfl).append (clean_columnType d c.type)

theorem clean_createTable {d : Dialect} {t : Table} (h : ∀ c ∈ t.columns, c.HasCleanDefault d) :
    Clean d (t.createSql d) := by
  have hopen : CleanThrough d "CREATE TABLE " := cleanThrough_of_isThrough d "CREATE TABLE " rfl
  have hkey : CleanThrough d "PRIMARY KEY (" := cleanThrough_of_isThrough d "PRIMARY KEY (" rfl
  have hlines : Clean d (Text.join ",\n  " (t.lines d)) := by
    refine clean_join rfl fun line hline => ?_
    rcases List.mem_append.mp hline with hcolumn | hprimary
    · obtain ⟨c, hc, rfl⟩ := List.mem_map.mp hcolumn
      exact clean_column (h c hc)
    · rw [List.mem_singleton.mp hprimary]
      exact ((hkey.append (clean_quote d t.key)).through ")" rfl).clean
  have hbody := ((hopen.append (clean_quote d t.name)).through " (\n  " rfl).append hlines
  refine (hbody.through "\n)" rfl).clean.append ?_ ?_
  · cases d <;> exact clean_of_isClean _ _ rfl
  · cases d <;> decide

theorem clean_dropTable (d : Dialect) (table : String) : Clean d (Table.dropSql table d) :=
  (cleanThrough_of_isThrough d "DROP TABLE IF EXISTS " rfl).append (clean_quote d table)

def Column.OfField (d : Dialect) (c : Column) : Prop :=
  ∃ (f : Field) (generated : Bool), f.columnWith? generated d = some c

theorem Column.OfField.hasCleanDefault {d : Dialect} {c : Column} (h : c.OfField d) :
    c.HasCleanDefault d := by
  obtain ⟨f, generated, hf⟩ := h
  obtain ⟨type, -, rfl⟩ := Option.map_eq_some_iff.mp hf
  intro literal hliteral
  obtain ⟨value, -, hvalue⟩ := Option.bind_eq_some_iff.mp hliteral
  unfold FieldType.defaultLiteral? at hvalue
  split at hvalue
  · cases hvalue
  · split at hvalue
    · cases hvalue
      split <;> exact clean_of_isClean d _ rfl
    · cases hvalue
      exact clean_literal d _

theorem ofField_of_filterMap {d : Dialect} {fields : List Field} {c : Column}
    (h : c ∈ fields.filterMap fun f => f.column? d) : c.OfField d := by
  obtain ⟨f, -, hf⟩ := List.mem_filterMap.mp h
  exact ⟨f, f.primary, hf⟩

theorem Schema.columns_ofField (s : Schema) (d : Dialect) :
    ∀ t ∈ s.ownTables d, ∀ c ∈ t.columns, c.OfField d := by
  intro t ht c hc
  rcases List.mem_cons.mp ht with rfl | hlocalized
  · rcases List.mem_append.mp hc with hadded | hfield
    · unfold addedKey at hadded
      split at hadded
      · cases hadded
      · exact ⟨_, _, Option.mem_toList.mp hadded⟩
    · exact ofField_of_filterMap hfield
  · rw [Option.mem_toList] at hlocalized
    unfold localized? at hlocalized
    split at hlocalized
    · cases hlocalized
    · cases hlocalized
      rcases List.mem_append.mp hc with hkey | hfield
      · exact ⟨_, _, Option.mem_toList.mp hkey⟩
      · exact ofField_of_filterMap hfield

/-- Every column of a table that is made is that of a field. -/
theorem Registry.columns_ofField (r : Registry) (d : Dialect) :
    ∀ t ∈ r.tables d, ∀ c ∈ t.columns, c.OfField d := by
  intro t ht
  obtain ⟨s, -, hs⟩ := List.mem_flatMap.mp ht
  rcases List.mem_append.mp hs with hown | hauxiliary
  · exact s.columns_ofField d t hown
  · obtain ⟨a, -, ha⟩ := List.mem_flatMap.mp hauxiliary
    exact a.columns_ofField d t ha

end EntityStore
