import EntityStore.Proofs.Selection.Sources
import EntityStore.Proofs.Session.Sends
import EntityStore.Store.Read
import Mathlib.Data.List.Nodup

/-!
Where the root row brings its key. Names are read once each, and the key is put in front where no
name reads it; but a name that is requested stands for the key also where no field of that name has
a column of the own table, and then nothing reads the key.
-/
namespace EntityStore

def Schema.declaresKey (s : Schema) : Bool :=
  match s.field? s.primaryKey with
  | some f => f.hasColumn && !f.isLocalized
  | none => false

/-- A scalar field that is declared as the key is held in the own table. -/
theorem Schema.declaresKey_of_primary {s : Schema} {f : Field} (hprimary : s.primaryField? = some f)
    (hfield : s.field? f.name = some f) (hcolumn : f.hasColumn = true) : s.declaresKey = true := by
  have hkey : s.primaryKey = f.name := by simp [primaryKey, hprimary]
  have hflag : f.primary = true := by simpa using List.find?_some hprimary
  simp [declaresKey, hkey, hfield, hcolumn, Field.isLocalized, hflag]

def Schema.keyColumn (s : Schema) : Projected :=
  .column s.name s.primaryKey

namespace Query

variable {s : Schema} {o : ReadOptions}

section Names

theorem mem_distinctFrom {seen names : List String} {n : String} :
    n ∈ distinctFrom seen names ↔ n ∈ names ∧ n ∉ seen := by
  induction names generalizing seen with
  | nil => simp [distinctFrom]
  | cons m rest ih =>
    by_cases hm : m ∈ seen
    · simp only [distinctFrom, hm, if_true, ih, List.mem_cons]
      constructor
      · rintro ⟨hrest, hseen⟩
        exact ⟨.inr hrest, hseen⟩
      · rintro ⟨rfl | hrest, hseen⟩
        · exact absurd hm hseen
        · exact ⟨hrest, hseen⟩
    · simp only [distinctFrom, hm, if_false, List.mem_cons, ih, not_or]
      constructor
      · rintro (rfl | ⟨hrest, -, hseen⟩)
        · exact ⟨.inl rfl, hm⟩
        · exact ⟨.inr hrest, hseen⟩
      · rintro ⟨rfl | hrest, hseen⟩
        · exact .inl rfl
        · by_cases hnm : n = m
          · exact .inl hnm
          · exact .inr ⟨hrest, hnm, hseen⟩

theorem distinctFrom_nodup (seen names : List String) : (distinctFrom seen names).Nodup := by
  induction names generalizing seen with
  | nil => simp [distinctFrom]
  | cons m rest ih =>
    by_cases hm : m ∈ seen
    · simpa [distinctFrom, hm] using ih seen
    · simp only [distinctFrom, hm, if_false, List.nodup_cons, mem_distinctFrom, List.mem_cons,
        true_or, not_true_eq_false, and_false, not_false_eq_true, true_and]
      exact ih (m :: seen)

theorem fieldNames_nodup (s : Schema) (o : ReadOptions) : (fieldNames s o).Nodup :=
  distinctFrom_nodup _ _

/-- What reads a field, by where the field is stored. -/
theorem projected?_of_field {n : String} {f : Field} (h : s.field? n = some f) :
    projected? s n =
      if f.hasColumn then
        if f.isLocalized then
          some (.named (.localized (Schema.localizedTable s.name) s.primaryKey s.name n) n)
        else some (.column s.name n)
      else none := by
  have hname := field?_name h
  by_cases hcolumn : f.hasColumn
  · by_cases hlocalized : f.isLocalized
    · simp [projected?, Schema.expression?, h, hname, hcolumn, hlocalized]
    · simp [projected?, Schema.expression?, h, hname, hcolumn, hlocalized]
  · simp [projected?, Schema.expression?, h, hcolumn]

theorem projected?_of_none {n : String} (h : s.field? n = none) : projected? s n = none := by
  simp [projected?, h]

/-- What reads a field reads it under its name. -/
theorem name_of_projected {n : String} {p : Projected} (h : projected? s n = some p) :
    p.name = n := by
  cases hf : s.field? n with
  | none =>
    rw [projected?_of_none hf] at h
    cases h
  | some f =>
    rw [projected?_of_field hf] at h
    split at h
    · split at h
      · cases h
        rfl
      · cases h
        rfl
    · cases h

/-- The key is read by its name where a field of that name has a column of the own table. -/
theorem projected?_primaryKey : projected? s s.primaryKey = some s.keyColumn ↔
    s.declaresKey = true := by
  unfold Schema.declaresKey Schema.keyColumn
  cases hf : s.field? s.primaryKey with
  | none => simp [projected?_of_none hf]
  | some f =>
    rw [projected?_of_field hf]
    by_cases hcolumn : f.hasColumn
    · by_cases hlocalized : f.isLocalized
      · simp [hcolumn, hlocalized]
      · simp [hcolumn, hlocalized]
    · simp [hcolumn]

end Names

section Own

/-- The names under which the fields are read. -/
theorem map_name_projected (s : Schema) (names : List String) :
    (names.filterMap (projected? s)).map Projected.name =
      names.filter fun n => (projected? s n).isSome := by
  induction names with
  | nil => rfl
  | cons n rest ih =>
    cases hn : projected? s n with
    | none => simp [hn, ih]
    | some p => simp [hn, ih, name_of_projected hn]

/-- The names under which a query reads its own fields: each once. -/
theorem ownProjection_names_nodup (s : Schema) (root : Bool) (o : ReadOptions) :
    ((ownProjection s root o).map Projected.name).Nodup := by
  have hfields : ((fieldNames s o).filter fun n => (projected? s n).isSome).Nodup :=
    (fieldNames_nodup s o).filter _
  unfold ownProjection
  simp only [List.map_append, map_name_projected]
  cases root with
  | false => simpa using hfields
  | true =>
    by_cases hkey : s.primaryKey ∈ fieldNames s o
    · simpa [rootKey, hkey] using hfields
    · simp only [if_true, rootKey, hkey, if_false, List.map_cons, List.map_nil, List.cons_append,
        List.nil_append, List.nodup_cons, Projected.name]
      refine ⟨?_, hfields⟩
      intro hmem
      exact hkey (List.mem_filter.mp hmem).1

/-- The root query reads its key unless it is requested by name and no field declares it. -/
theorem keyColumn_mem_ownProjection : s.keyColumn ∈ ownProjection s true o ↔
    (s.primaryKey ∈ fieldNames s o → s.declaresKey = true) := by
  by_cases hkey : s.primaryKey ∈ fieldNames s o
  · simp only [ownProjection, if_true, rootKey, hkey, List.nil_append, true_implies,
      List.mem_filterMap]
    constructor
    · rintro ⟨n, -, hn⟩
      have hname : s.primaryKey = n := name_of_projected hn
      subst hname
      exact projected?_primaryKey.mp hn
    · intro hdeclared
      exact ⟨s.primaryKey, hkey, projected?_primaryKey.mpr hdeclared⟩
  · simp [ownProjection, rootKey, hkey, Schema.keyColumn]

end Own

/-- The key is no row that is read along. -/
theorem keyColumn_not_mem_rows (r : Registry) (src : Source) (t : Schema) :
    t.keyColumn ∉ src.rows r := by
  intro hmem
  obtain ⟨fetch, -, hfetch⟩ := List.mem_filterMap.mp hmem
  obtain ⟨row, hrow⟩ := (relatedRow?_eq_some hfetch).1
  cases hrow

/-- Of the columns of the root query, one is the key or none is. -/
theorem count_keyColumn (r : Registry) (s : Schema) (o : ReadOptions) :
    (Source.projection r ⟨s, true, o⟩).count s.keyColumn =
      if s.primaryKey ∈ fieldNames s o → s.declaresKey = true then 1 else 0 := by
  have hrows : ((⟨s, true, o⟩ : Source).rows r).count s.keyColumn = 0 :=
    List.count_eq_zero.mpr (keyColumn_not_mem_rows r _ s)
  have hnodup : (ownProjection s true o).Nodup :=
    List.Nodup.of_map _ (ownProjection_names_nodup s true o)
  rw [Source.projection, List.count_append, hrows, Nat.add_zero, hnodup.count]
  simp only [keyColumn_mem_ownProjection]

/-- The root query reads something, and its key once, exactly where it reads its key. -/
theorem reads_key_once_iff (r : Registry) (s : Schema) (o : ReadOptions) :
    (Source.projection r ⟨s, true, o⟩ ≠ [] ∧
      (Source.projection r ⟨s, true, o⟩).count s.keyColumn = 1) ↔
    (s.primaryKey ∈ fieldNames s o → s.declaresKey = true) := by
  rw [count_keyColumn]
  constructor
  · rintro ⟨-, hcount⟩ hnamed
    by_contra hnot
    simp [hnamed, hnot] at hcount
  · intro hread
    have hmem := keyColumn_mem_ownProjection.mpr hread
    exact ⟨List.ne_nil_of_mem (List.mem_append_left _ hmem), if_pos hread⟩

end Query

namespace Store

/-- What a lookup of the keys of rows reads: what the name of the key stands for. -/
def keySelection (r : Registry) (s : Schema) (model : String) (condition : Condition) :
    Selection where
  table := model
  clauses := {
    projection := (Query.projected? s s.primaryKey).toList
    conditions := (condition.resolve? r s.name).toList }
  page := none

theorem ownProjection_key (s : Schema) : Query.ownProjection s true { fields := [s.primaryKey] } =
    (Query.projected? s s.primaryKey).toList := by
  have hnames : Query.fieldNames s { fields := [s.primaryKey] } = [s.primaryKey] := by
    simp [Query.fieldNames, Query.requestedNames, Query.distinctFrom]
  unfold Query.ownProjection
  simp only [hnames, Query.rootKey, List.mem_singleton, if_true, List.nil_append]
  cases hkey : Query.projected? s s.primaryKey <;> simp [hkey]

/-- A lookup of keys sends one command, whatever the server replies. -/
theorem matchingKeys_sent {r : Registry} {model : String} {s : Schema}
    (hs : r.schema? model = some s) (condition : Condition) (session : Session) :
    (matchingKeys r model condition session).2.sent =
      .select (keySelection r s model condition) :: session.sent := by
  have hrequire := Registry.require_eq_ok.mpr hs
  have hselection : Query.selection r {
      options := { fields := [s.primaryKey] }
      model
      condition := some condition } = .ok (keySelection r s model condition) := by
    simp [Query.selection, hrequire, Query.clausesOf, Query.ownClauses, Query.embeddedRows,
      Query.joinedClauses, bind, Except.bind, ownProjection_key, Clauses.append, keySelection,
      Query.page?]
  obtain ⟨replies, sent⟩ := session
  unfold matchingKeys
  simp only [Run.bind_apply, Run.ofExcept, hrequire, hselection]
  rcases replies with _ | ⟨_ | _, _⟩ <;> rfl

end Store

/-- Of the columns of the root query exactly one is the key, unless the key is requested by its
name and no field of that name has a column of the own table; then none is. The lookup of keys
requests it by its name, so it reads the key where such a field is declared and nothing else where
no field has the name. -/
theorem root_key_read_once_iff (r : Registry) :
    (∀ (q : Query) (selected : Selection), q.selection r = .ok selected →
      ∃ s, r.schema? q.model = some s ∧
        Source.projection r ⟨s, true, q.options⟩ <+: selected.clauses.projection ∧
        ((Source.projection r ⟨s, true, q.options⟩ ≠ [] ∧
          (Source.projection r ⟨s, true, q.options⟩).count s.keyColumn = 1) ↔
          (s.primaryKey ∈ Query.fieldNames s q.options → s.declaresKey = true))) ∧
    (∀ (model : String) (s : Schema) (condition : Condition), r.schema? model = some s →
      (∀ session, (Store.matchingKeys r model condition session).2.sent =
        .select (Store.keySelection r s model condition) :: session.sent) ∧
      (s.keyColumn ∈ (Store.keySelection r s model condition).clauses.projection ↔
        s.declaresKey = true) ∧
      (s.field? s.primaryKey = none →
        (Store.keySelection r s model condition).clauses.projection = [])) ∧
    (∀ (s : Schema) (f : Field), s.primaryField? = some f → s.field? f.name = some f →
      f.hasColumn = true → s.declaresKey = true) := by
  refine ⟨?_, ?_, ?_⟩
  · intro q selected hselected
    obtain ⟨s, hs, hprojection⟩ := Query.selection_projection hselected
    rw [hprojection]
    exact ⟨s, hs, q.projection_prefix r s true, Query.reads_key_once_iff r s q.options⟩
  · intro model s condition hs
    refine ⟨Store.matchingKeys_sent hs condition, ?_, ?_⟩
    · rw [Store.keySelection, Option.mem_toList]
      exact Query.projected?_primaryKey
    · intro hnone
      rw [Store.keySelection, Query.projected?_of_none hnone]
      rfl
  · intro s f hprimary hfield hcolumn
    exact Schema.declaresKey_of_primary hprimary hfield hcolumn

namespace Sample

def post : Schema where
  name := "Post"
  fields := [{ name := "title", type := .string }]

def posts : Registry := ⟨[post], rfl⟩

end Sample

open Sample in
theorem root_key_read_of_titles : ∃ selected,
    ((Query.ofModel "Post").select ["title", "name", "title"]).selection posts = .ok selected ∧
    (Source.projection posts ⟨post, true, { fields := ["title", "name", "title"] }⟩).count
      post.keyColumn = 1 := by
  refine ⟨_, rfl, ?_⟩
  obtain ⟨s, hs, -, hread⟩ := (root_key_read_once_iff posts).1
    ((Query.ofModel "Post").select ["title", "name", "title"]) _ rfl
  cases hs
  exact (hread.mpr (by decide)).2

open Sample in
/-- Where no field declares the key, a query for it reads nothing, and so does the lookup of
keys. -/
theorem root_key_not_read :
    (∃ selected, ((Query.ofModel "Post").select ["id"]).selection posts = .ok selected ∧
      selected.clauses.projection = [] ∧
      ((selected.selectSql .mysql).statement .mysql).sql = "SELECT  FROM `Post`") ∧
    ∀ condition session, ∃ selected,
      (Store.matchingKeys posts "Post" condition session).2.sent =
        .select selected :: session.sent ∧
      selected.clauses.projection = [] := by
  refine ⟨⟨_, rfl, rfl, rfl⟩, fun condition session => ?_⟩
  exact ⟨_, Store.matchingKeys_sent rfl condition session, rfl⟩

end EntityStore
