import EntityStore.Proofs.Reading.Definition
import EntityStore.Proofs.Session.Sync
import EntityStore.Proofs.Storage.TableColumns

/-!
What the statements of a sync define. Each that makes a table declares one key. The key is a
column of the table unless it was declared on a field without one, and no column is defined twice
unless a name that is generated meets one that is declared.
-/
namespace EntityStore

open Reading

namespace Registry

def createTexts (r : Registry) (d : Dialect) : List String :=
  (r.created d).map fun t => ((Command.create t).statement d).sql

section Texts

variable {r : Registry} {d : Dialect}

theorem createTexts_eq : r.createTexts d = (r.tables d).map fun t => t.createSql d := by
  have htext : ∀ t : Table, ((Command.create t).statement d).sql = t.createSql d := by
    intro t
    simp [Command.statement, Command.sql, Sql.statement, Sql.text, Sql.write]
  rw [createTexts, created_eq]
  simp only [htext]

/-- The texts define the columns and the keys of the tables, in their order. -/
theorem definitions_createTexts :
    (r.createTexts d).map (fun sql => (definedColumns d sql, definedKeys d sql)) =
      (r.tables d).map fun t => (t.columns.map Column.name, [[t.key]]) := by
  rw [createTexts_eq, List.map_map]
  refine List.map_congr_left fun t ht => ?_
  obtain ⟨hcolumns, hkeys⟩ := Table.definitions_createSql (r.columns_ofField d t ht)
  simp only [Function.comp_apply, hcolumns, hkeys]

theorem forall_createTexts {P : List String → List (List String) → Prop} :
    (∀ sql ∈ r.createTexts d, P (definedColumns d sql) (definedKeys d sql)) ↔
      ∀ t ∈ r.tables d, P (t.columns.map Column.name) [[t.key]] := by
  have hdefinitions := congrArg (fun all => ∀ p ∈ all, P p.1 p.2)
    (definitions_createTexts (r := r) (d := d))
  simpa only [List.forall_mem_map, eq_iff_iff] using hdefinitions

end Texts

end Registry

/-- Every text that makes a table declares one key, by one column. All these are columns of their
tables exactly where every declared key is held in the own table of its model, and all columns have
different names exactly where no generated name meets a declared one. -/
theorem created_definitions_iff (r : Registry) (d : Dialect)
    (hnames : ∀ s ∈ r.schemas, (s.fields.map Field.name).Nodup) :
    (∀ sql ∈ r.createTexts d, ∃ key, definedKeys d sql = [[key]]) ∧
    ((∀ sql ∈ r.createTexts d, ∀ key, definedKeys d sql = [[key]] → key ∈ definedColumns d sql) ↔
      r.HoldsKeys) ∧
    ((∀ sql ∈ r.createTexts d, (definedColumns d sql).Nodup) ↔ r.ColumnsApart) := by
  refine ⟨?_, ?_, ?_⟩
  · rw [Registry.forall_createTexts (P := fun _ keys => ∃ key, keys = [[key]])]
    exact fun t _ => ⟨t.key, rfl⟩
  · rw [Registry.forall_createTexts
        (P := fun columns keys => ∀ key, keys = [[key]] → key ∈ columns),
      ← Registry.keys_mem_columns_iff (d := d) hnames]
    simp only [List.cons.injEq, and_true, forall_eq']
  · rw [Registry.forall_createTexts (P := fun columns _ => columns.Nodup)]
    exact Registry.columns_nodup_iff hnames

namespace Sample

def numbered : Registry := ⟨[
  { name := "Post", fields := [
    { name := "id", type := .integer }, { name := "title", type := .string }] }], rfl⟩

end Sample

open Sample in
theorem created_definitions_of_blog :
    (∀ s ∈ blog.schemas, (s.fields.map Field.name).Nodup) ∧ blog.HoldsKeys ∧ blog.ColumnsApart ∧
    (blog.createTexts .mysql).length = 5 ∧
    ∀ sql ∈ blog.createTexts .mysql, (definedColumns .mysql sql).Nodup ∧
      ∃ key, definedKeys .mysql sql = [[key]] ∧ key ∈ definedColumns .mysql sql := by
  have hnames : ∀ s ∈ blog.schemas, (s.fields.map Field.name).Nodup := by decide
  have hkeys : blog.HoldsKeys := by
    intro s hs f hf
    simp only [blog, List.mem_cons, List.not_mem_nil, or_false] at hs
    obtain rfl | rfl := hs <;> cases hf
  have happart : blog.ColumnsApart := by
    refine ⟨by decide, fun s hs f hf relation hkind => ?_⟩
    simp only [blog, List.mem_cons, List.not_mem_nil, or_false] at hs
    obtain rfl | rfl := hs
    · simp only [List.mem_cons, List.not_mem_nil, or_false] at hf
      obtain rfl | rfl | rfl := hf <;> cases hkind
      exact ⟨by decide, by decide⟩
    · cases hf
  obtain ⟨hone, hheld, hdistinct⟩ := created_definitions_iff blog .mysql hnames
  refine ⟨hnames, hkeys, happart, by decide, fun sql hsql => ⟨hdistinct.mpr happart sql hsql, ?_⟩⟩
  obtain ⟨key, hkey⟩ := hone sql hsql
  exact ⟨key, hkey, hheld.mpr hkeys sql hsql key hkey⟩

open Sample in
/-- The key that is added is a second column of the name of the one that was declared. -/
theorem created_definitions_clash :
    (∀ s ∈ numbered.schemas, (s.fields.map Field.name).Nodup) ∧
    (numbered.createTexts .sqlite).map
      (fun sql => (definedColumns .sqlite sql, definedKeys .sqlite sql)) =
        [(["id", "id", "title"], [["id"]])] ∧
    ¬ ∀ sql ∈ numbered.createTexts .sqlite, (definedColumns .sqlite sql).Nodup := by
  refine ⟨by decide, ?_, ?_⟩
  · rw [Registry.definitions_createTexts]
    decide
  · rw [Registry.forall_createTexts (P := fun columns _ => columns.Nodup)]
    decide

end EntityStore
