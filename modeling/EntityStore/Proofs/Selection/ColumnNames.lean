import EntityStore.Proofs.Json.Basic
import EntityStore.Proofs.Selection.RootKey
import EntityStore.Server.Pool

/-!
The names of the columns of a selection. A row is kept as a record by these names, so of columns
with one name only the last is kept. Names are distinct within a query unless a relation is read
along twice, or is read along under the name of the key; those of queries that are joined may be
the same.
-/
namespace EntityStore

namespace Server

/-- The column at a place is found in every row that is read, under its name. -/
def Keeps (names : List String) (i : Nat) : Prop :=
  ∀ (columns : List (String × CellType)) (cells : List (Option (List UInt8))),
    columns.map Prod.fst = names → cells.length = columns.length →
    ∀ column cell, columns[i]? = some column → cells[i]? = some cell →
      Record.get? column.1 (readRow columns cells) = some (column.2.read cell)

private def members (columns : List (String × CellType)) (cells : List (Option (List UInt8))) :
    List (String × Json) :=
  (columns.zip cells).map fun c => (c.1.1, c.1.2.read c.2)

private theorem members_names {columns : List (String × CellType)}
    {cells : List (Option (List UInt8))} (h : cells.length = columns.length) :
    (members columns cells).map Prod.fst = columns.map Prod.fst := by
  have hzip : (columns.zip cells).map Prod.fst = columns :=
    List.map_fst_zip (Nat.le_of_eq h.symm)
  calc (members columns cells).map Prod.fst
      = ((columns.zip cells).map Prod.fst).map Prod.fst := by simp [members]
    _ = columns.map Prod.fst := by rw [hzip]

section Keeps

variable {names : List String} {i : Nat} {name : String}

theorem keeps_of_not_mem_drop (h : names[i]? = some name) (hlast : name ∉ names.drop (i + 1)) :
    Keeps names i := by
  intro columns cells hnames hlength column cell hcolumn hcell
  have hname : column.1 = name := by
    have hget : names[i]? = some column.1 := by simp [← hnames, hcolumn]
    exact Option.some.inj (hget.symm.trans h)
  have hzip : (columns.zip cells)[i]? = some (column, cell) :=
    List.getElem?_zip_eq_some.mpr ⟨hcolumn, hcell⟩
  have hmember : (members columns cells)[i]? = some (name, column.2.read cell) := by
    rw [members, List.getElem?_map, hzip, Option.map_some, hname]
  obtain ⟨hi, hget⟩ := List.getElem?_eq_some_iff.mp hmember
  have hsplit : members columns cells = (members columns cells).take i ++
      (name, column.2.read cell) :: (members columns cells).drop (i + 1) := by
    rw [← hget, List.getElem_cons_drop, List.take_append_drop]
  have hafter : name ∉ ((members columns cells).drop (i + 1)).map Prod.fst := by
    rw [List.map_drop, members_names hlength, hnames]
    exact hlast
  have hfound := @Record.get?_ofMembers_of_last name ((members columns cells).take i) _
    (column.2.read cell) hafter
  rw [← hsplit] at hfound
  rw [hname]
  exact hfound

private def truthColumns (names : List String) : List (String × CellType) :=
  names.map fun n => (n, .bool)

private def loneCell (length i : Nat) : List (Option (List UInt8)) :=
  (List.range length).map fun j => if j = i then some [1] else none

/-- In a row with one cell that is not null, a later column of its name makes the value null. -/
theorem not_keeps_of_mem_drop (h : names[i]? = some name) (hmem : name ∈ names.drop (i + 1)) :
    ¬ Keeps names i := by
  intro hkeeps
  have hi : i < names.length := (List.getElem?_eq_some_iff.mp h).1
  have hnames : (truthColumns names).map Prod.fst = names := by
    simp [truthColumns, Function.comp_def]
  have hlength : (loneCell names.length i).length = (truthColumns names).length := by
    simp [loneCell, truthColumns]
  have hkept := hkeeps _ _ hnames hlength (name, .bool) (some [1]) (by simp [truthColumns, h])
    (by simp [loneCell, hi])
  have hlater : ((members (truthColumns names) (loneCell names.length i)).drop (i + 1)).map
      Prod.fst = names.drop (i + 1) := by
    rw [List.map_drop, members_names hlength, hnames]
  have hnull : ∀ m ∈ (members (truthColumns names) (loneCell names.length i)).drop (i + 1),
      m.2 = .null := by
    intro m hm
    obtain ⟨j, hj, rfl⟩ := List.getElem_of_mem hm
    have hne : i + 1 + j ≠ i := by omega
    simp [members, truthColumns, loneCell, hne, CellType.read]
  have hlost : Record.get? name (readRow (truthColumns names) (loneCell names.length i)) =
      some .null := by
    have hlast := @Record.get?_ofMembers_of_mem name
      ((members (truthColumns names) (loneCell names.length i)).take (i + 1)) _ .null
      (by rw [hlater]; exact hmem) hnull
    rwa [List.take_append_drop] at hlast
  rw [hlost] at hkept
  simp [CellType.read, CellType.read?] at hkept

/-- A column is kept unless a later one has its name. -/
theorem keeps_iff (h : names[i]? = some name) : Keeps names i ↔ name ∉ names.drop (i + 1) := by
  constructor
  · intro hkeeps hmem
    exact not_keeps_of_mem_drop h hmem hkeeps
  · exact keeps_of_not_mem_drop h

end Keeps

theorem not_mem_drop_of_nodup {names : List String} (h : names.Nodup) {i : Nat} {name : String}
    (hi : names[i]? = some name) : name ∉ names.drop (i + 1) := by
  obtain ⟨hlt, rfl⟩ := List.getElem?_eq_some_iff.mp hi
  have hsplit : (names[i] :: names.drop (i + 1)).Nodup := by
    rw [List.getElem_cons_drop]
    exact h.sublist (List.drop_sublist _ _)
  exact (List.nodup_cons.mp hsplit).1

/-- Nothing is lost exactly where no name is given twice. -/
theorem nodup_iff_keeps (names : List String) :
    names.Nodup ↔ ∀ i, i < names.length → Keeps names i := by
  constructor
  · intro hnodup i hi
    have hget := List.getElem?_eq_getElem hi
    exact (keeps_iff hget).mpr (not_mem_drop_of_nodup hnodup hget)
  · intro hkeeps
    refine List.pairwise_iff_getElem.mpr fun i j hi hj hij heq => ?_
    have hlast := (keeps_iff (List.getElem?_eq_getElem hi)).mp (hkeeps i hi)
    apply hlast
    rw [heq]
    exact List.mem_drop_iff_getElem.mpr ⟨j - (i + 1), by omega, by congr 1; omega⟩

end Server

section Names

variable {r : Registry} {s : Schema}

/-- A column is written with the name under which it is read at its end. -/
theorem Projected.sql_ends_with_name (p : Projected) (d : Dialect) :
    ∃ before, p.sql d = before ++ d.quote p.name := by
  cases p <;> exact ⟨_, rfl⟩

namespace Source

def names (r : Registry) (src : Source) : List String :=
  (src.projection r).map Projected.name

def rowNames (r : Registry) (src : Source) : List String :=
  (src.rows r).map Projected.name

def ownNames (src : Source) : List String :=
  (Query.ownProjection src.schema src.root src.options).map Projected.name

theorem names_eq (r : Registry) (src : Source) : src.names r = src.ownNames ++ src.rowNames r := by
  simp [names, projection, ownNames, rowNames]

/-- No field is read by itself whose row is read along. -/
theorem not_mem_fieldNames_of_row {src : Source} {n : String} (h : n ∈ src.rowNames r) :
    n ∉ Query.fieldNames src.schema src.options := by
  obtain ⟨p, hp, rfl⟩ := List.mem_map.mp h
  obtain ⟨fetch, hfetch, hrow⟩ := List.mem_filterMap.mp hp
  obtain ⟨-, hname, hembedded⟩ := Query.relatedRow?_eq_some hrow
  intro hmem
  apply (Query.mem_distinctFrom.mp hmem).2
  rw [List.mem_filter, hname]
  exact ⟨List.mem_map.mpr ⟨fetch, hfetch, rfl⟩, hembedded⟩

theorem mem_ownNames {src : Source} {n : String} : n ∈ src.ownNames ↔
    (n ∈ Query.fieldNames src.schema src.options ∧
      (Query.projected? src.schema n).isSome = true) ∨
    (src.root = true ∧ n = src.schema.primaryKey ∧
      src.schema.primaryKey ∉ Query.fieldNames src.schema src.options) := by
  have hfields : ∀ names : List String,
      n ∈ (names.filterMap (Query.projected? src.schema)).map Projected.name ↔
        n ∈ names ∧ (Query.projected? src.schema n).isSome = true := by
    intro names
    rw [Query.map_name_projected, List.mem_filter]
  simp only [ownNames, Query.ownProjection, List.map_append, List.mem_append, hfields]
  cases src.root with
  | false => simp
  | true =>
    by_cases hkey : src.schema.primaryKey ∈ Query.fieldNames src.schema src.options
    · simp [Query.rootKey, hkey]
    · simp [Query.rootKey, hkey, Projected.name, or_comm]

/-- The names of a query are distinct unless a relation is read along twice, or under the name of
the key that is put in front. -/
theorem names_nodup_iff (src : Source) : (src.names r).Nodup ↔
    (src.rowNames r).Nodup ∧ (src.root = true → src.schema.primaryKey ∉ src.rowNames r) := by
  have hown : src.ownNames.Nodup := Query.ownProjection_names_nodup _ _ _
  rw [names_eq, List.nodup_append']
  constructor
  · rintro ⟨-, hrows, hdisjoint⟩
    refine ⟨hrows, fun hroot hrow => ?_⟩
    have hadded := mem_ownNames.mpr (.inr ⟨hroot, rfl, not_mem_fieldNames_of_row hrow⟩)
    exact hdisjoint hadded hrow
  · rintro ⟨hrows, hkey⟩
    refine ⟨hown, hrows, fun n hfield hrow => ?_⟩
    rcases mem_ownNames.mp hfield with ⟨hnamed, -⟩ | ⟨hroot, rfl, -⟩
    · exact not_mem_fieldNames_of_row hrow hnamed
    · exact hkey hroot hrow

end Source

def Selection.columnNames (s : Selection) : List String :=
  s.clauses.projection.map Projected.name

/-- What keeps the names of all columns apart. -/
structure Query.DistinctColumns (r : Registry) (s : Schema) (q : Query) : Prop where
  /-- No query reads a relation along twice. -/
  rows_once : ∀ src ∈ q.sources r s true, (src.rowNames r).Nodup
  /-- The root query reads no relation along under the name of its key. -/
  key_apart : ∀ src ∈ q.sources r s true,
    src.root = true → src.schema.primaryKey ∉ src.rowNames r
  /-- No two queries read columns of one name. -/
  sources_apart : (q.sources r s true).Pairwise fun a b => (a.names r).Disjoint (b.names r)

theorem Query.names_nodup_iff (q : Query) :
    ((q.sources r s true).flatMap (Source.names r)).Nodup ↔ q.DistinctColumns r s := by
  rw [List.nodup_flatMap]
  constructor
  · rintro ⟨heach, hapart⟩
    exact ⟨fun src hsrc => ((src.names_nodup_iff).mp (heach src hsrc)).1,
      fun src hsrc => ((src.names_nodup_iff).mp (heach src hsrc)).2, hapart⟩
  · rintro ⟨hrows, hkey, hapart⟩
    exact ⟨fun src hsrc => src.names_nodup_iff.mpr ⟨hrows src hsrc, hkey src hsrc⟩, hapart⟩

/-- What keeps the root's own key under its name. -/
structure Query.KeepsKey (r : Registry) (s : Schema) (q : Query) : Prop where
  /-- The key is read. -/
  key_read : s.primaryKey ∈ Query.fieldNames s q.options → s.declaresKey = true
  /-- No relation is read along under its name. -/
  rows_apart : s.primaryKey ∉ Source.rowNames r ⟨s, true, q.options⟩
  /-- No joined query reads a column of its name. -/
  joined_apart : ∀ src ∈ q.reached r s, s.primaryKey ∉ src.names r

/-- Behind the own columns of the root query come its rows and the columns of joined queries. -/
theorem Query.names_eq (q : Query) : (q.sources r s true).flatMap (Source.names r) =
    Source.ownNames ⟨s, true, q.options⟩ ++
      (Source.rowNames r ⟨s, true, q.options⟩ ++ (q.reached r s).flatMap (Source.names r)) := by
  rw [Query.sources_eq, List.flatMap_cons, Source.names_eq, List.append_assoc]

/-- The key stands among the own columns, where no other one has its name. -/
theorem Query.keeps_keyColumn_iff (q : Query) {i : Nat}
    (h : (Query.ownProjection s true q.options)[i]? = some s.keyColumn) :
    Server.Keeps ((q.sources r s true).flatMap (Source.names r)) i ↔
      s.primaryKey ∉ Source.rowNames r ⟨s, true, q.options⟩ ∧
        ∀ src ∈ q.reached r s, s.primaryKey ∉ src.names r := by
  have hnodup : (Source.ownNames ⟨s, true, q.options⟩).Nodup :=
    Query.ownProjection_names_nodup s true q.options
  have hown : (Source.ownNames ⟨s, true, q.options⟩)[i]? = some s.primaryKey := by
    simp [Source.ownNames, h, Schema.keyColumn, Projected.name]
  obtain ⟨hlt, -⟩ := List.getElem?_eq_some_iff.mp hown
  have hget : ((q.sources r s true).flatMap (Source.names r))[i]? = some s.primaryKey := by
    rw [Query.names_eq, List.getElem?_append_left hlt, hown]
  have hlast := Server.not_mem_drop_of_nodup hnodup hown
  rw [Server.keeps_iff hget, Query.names_eq, List.drop_append_of_le_length (by omega)]
  simp only [List.mem_append, hlast, false_or, not_or, List.mem_flatMap, not_exists, not_and]

theorem Query.keepsKey_iff (q : Query) :
    (∃ i, (Source.projection r ⟨s, true, q.options⟩)[i]? = some s.keyColumn ∧
      Server.Keeps ((q.sources r s true).flatMap (Source.names r)) i) ↔ q.KeepsKey r s := by
  constructor
  · rintro ⟨i, hi, hkeeps⟩
    have hown : (Query.ownProjection s true q.options)[i]? = some s.keyColumn := by
      by_cases hlt : i < (Query.ownProjection s true q.options).length
      · rwa [Source.projection, List.getElem?_append_left hlt] at hi
      · rw [Source.projection, List.getElem?_append_right (Nat.le_of_not_lt hlt)] at hi
        exact absurd (List.mem_of_getElem? hi) (Query.keyColumn_not_mem_rows r _ s)
    obtain ⟨hrows, hjoined⟩ := (q.keeps_keyColumn_iff hown).mp hkeeps
    exact ⟨Query.keyColumn_mem_ownProjection.mp (List.mem_of_getElem? hown), hrows, hjoined⟩
  · rintro ⟨hread, hrows, hjoined⟩
    obtain ⟨i, hi⟩ := List.mem_iff_getElem?.mp (Query.keyColumn_mem_ownProjection.mpr hread)
    refine ⟨i, ?_, (q.keeps_keyColumn_iff hi).mpr ⟨hrows, hjoined⟩⟩
    obtain ⟨hlt, -⟩ := List.getElem?_eq_some_iff.mp hi
    rw [Source.projection, List.getElem?_append_left hlt, hi]

/-- The names of a selection's columns are those of its sources. -/
theorem Query.selection_columnNames {q : Query} {selected : Selection}
    (h : q.selection r = .ok selected) : ∃ s, r.schema? q.model = some s ∧
      Source.projection r ⟨s, true, q.options⟩ <+: selected.clauses.projection ∧
      selected.columnNames = (q.sources r s true).flatMap (Source.names r) := by
  obtain ⟨s, hs, hprojection⟩ := Query.selection_projection h
  refine ⟨s, hs, ?_, ?_⟩
  · rw [hprojection]
    exact q.projection_prefix r s true
  · rw [Selection.columnNames, hprojection, List.map_flatMap]
    rfl

end Names

/-- The names of the columns, with which they end, are distinct exactly under the conditions of
`Query.DistinctColumns`, and so is every column kept of a row; the root's own key is read and kept
exactly under those of `Query.KeepsKey`. -/
theorem column_names_distinct_iff {r : Registry} {q : Query} {selected : Selection}
    (h : q.selection r = .ok selected) :
    (∀ p ∈ selected.clauses.projection, ∀ d, ∃ before, p.sql d = before ++ d.quote p.name) ∧
    ∃ s, r.schema? q.model = some s ∧
      Source.projection r ⟨s, true, q.options⟩ <+: selected.clauses.projection ∧
      (selected.columnNames.Nodup ↔ q.DistinctColumns r s) ∧
      (selected.columnNames.Nodup ↔
        ∀ i, i < selected.columnNames.length → Server.Keeps selected.columnNames i) ∧
      ((∃ i, (Source.projection r ⟨s, true, q.options⟩)[i]? = some s.keyColumn ∧
        Server.Keeps selected.columnNames i) ↔ q.KeepsKey r s) := by
  obtain ⟨s, hs, hroot, hnames⟩ := Query.selection_columnNames h
  refine ⟨fun p _ d => p.sql_ends_with_name d, s, hs, hroot, ?_, ?_, ?_⟩
  · rw [hnames]
    exact q.names_nodup_iff
  · exact Server.nodup_iff_keeps _
  · rw [hnames]
    exact q.keepsKey_iff

namespace Sample

def user : Schema where
  name := "User"
  fields := [
    { name := "id", type := .integer, primary := true },
    { name := "name", type := .string }]

def role : Schema where
  name := "Role"
  fields := [
    { name := "id", type := .integer, primary := true },
    { name := "title", type := .string },
    .ofRelation "owner" "User" .oneToOne]

def roles : Registry := ⟨[user, role], rfl⟩

def titlesWith (fields : List String) : Query :=
  ((Query.ofModel "Role").select ["title"]).join .left "owner"
    ((Query.ofModel "User").select fields)

def titlesWithOwnersTwice : Query :=
  let owner : RelationFetch := { name := "owner", fields := some ["name"] }
  (((Query.ofModel "Role").select ["title"]).fetch owner).fetch owner

end Sample

open Sample in
theorem column_names_distinct_of_titles : ∃ selected,
    (titlesWith ["name"]).selection roles = .ok selected ∧
    selected.columnNames = ["id", "title", "name"] ∧
    (titlesWith ["name"]).DistinctColumns roles role ∧
    Server.Keeps selected.columnNames 2 := by
  refine ⟨_, rfl, rfl, ?_⟩
  obtain ⟨-, s, hs, -, hdistinct, hkeeps, -⟩ :=
    column_names_distinct_iff (r := roles) (q := titlesWith ["name"]) rfl
  cases hs
  exact ⟨hdistinct.mp (by decide), hkeeps.mp (by decide) 2 (by decide)⟩

open Sample in
/-- A row of a role is kept with the key of its owner where that is selected too, and of two rows
read along under one name one is lost. -/
theorem column_names_clash :
    (∃ selected, (titlesWith ["id", "name"]).selection roles = .ok selected ∧
      selected.columnNames = ["id", "title", "id", "name"] ∧
      ¬ selected.columnNames.Nodup ∧ ¬ (titlesWith ["id", "name"]).KeepsKey roles role) ∧
    Record.get? "id" (Server.readRow
      [("id", .int4), ("title", .text), ("id", .int4), ("name", .text)]
      [some [0, 0, 0, 1], some [65], some [0, 0, 0, 2], some [66]]) =
        some (Server.CellType.int4.read (some [0, 0, 0, 2])) ∧
    ∃ selected, titlesWithOwnersTwice.selection roles = .ok selected ∧
      selected.columnNames = ["id", "title", "owner", "owner"] ∧
      ¬ selected.columnNames.Nodup := by
  refine ⟨⟨_, rfl, rfl, by decide, ?_⟩, rfl, _, rfl, rfl, by decide⟩
  rintro ⟨-, -, hjoined⟩
  exact hjoined ⟨user, false, _⟩ (List.mem_singleton.mpr rfl) (by decide)

end EntityStore
