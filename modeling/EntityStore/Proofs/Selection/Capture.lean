import EntityStore.Proofs.Selection.Aliases

/-!
A subselect compares a column of its own with one of the row around it. Its own tables go by fixed
aliases and those around it by the names of models, so the row around it is reached unless its model
has the name of the alias: that of embedded rows where the model reads rows along, and that of
localized values where it reads such values.
-/
namespace EntityStore

open Reading

def Schema.Localizes (s : Schema) (n : String) : Prop :=
  ∃ f, s.field? n = some f ∧ f.isLocalized = true

def Visit.names (v : Visit) : List String :=
  Query.fieldNames v.schema v.options ++ v.options.orderBy.map OrderBy.field

/-- What keeps the rows around subselects apart from those within. -/
structure Query.AvoidsCapture (r : Registry) (s : Schema) (q : Query) : Prop where
  rows : ∀ v ∈ q.visits r s true none, v.rows r ≠ [] → v.schema.name ≠ EmbeddedRow.rowAlias
  values : ∀ v ∈ q.visits r s true none, ∀ n ∈ v.names, v.schema.Localizes n →
    v.schema.name ≠ Expression.localizedAlias
  comparisons : ∀ e ∈ q.compared r s, e.isLocalized = true → e.source ≠ Expression.localizedAlias

section Localized

variable {s : Schema} {source n : String}

theorem Schema.isLocalized_iff_localizes {e : Expression} (he : s.expression? source n = some e) :
    e.isLocalized = true ↔ s.Localizes n := by
  unfold expression? at he
  cases hf : s.field? n with
  | none =>
    rw [hf] at he
    dsimp only at he
    split at he
    · cases he
      simp [Expression.isLocalized, Localizes, hf]
    · cases he
  | some f =>
    rw [hf] at he
    dsimp only at he
    split at he
    · cases he
    · split at he
      · next hlocalized =>
        cases he
        simp [Expression.isLocalized, Localizes, hf, hlocalized]
      · next hown =>
        cases he
        simp [Expression.isLocalized, Localizes, hf, hown]

theorem Schema.exists_expression?_of_localizes (h : s.Localizes n) (source : String) :
    ∃ e, s.expression? source n = some e := by
  obtain ⟨f, hf, hlocalized⟩ := h
  have hcolumn := Field.hasColumn_of_isLocalized hlocalized
  exact ⟨_, by simp [expression?, hf, hcolumn, hlocalized]; rfl⟩

end Localized

namespace Query

variable {r : Registry} {s : Schema}

/-- A projected field reaches its row unless it is localized and its model has the alias of
localized values. -/
theorem projected?_reaches (n : String) : (∀ p, projected? s n = some p → p.Reaches) ↔
    (s.Localizes n → s.name ≠ Expression.localizedAlias) := by
  constructor
  · intro h hlocalizes
    obtain ⟨e, he⟩ := Schema.exists_expression?_of_localizes hlocalizes s.name
    obtain ⟨f, hf, -⟩ := id hlocalizes
    have hlocalized := (Schema.isLocalized_iff_localizes he).mpr hlocalizes
    have hsource := Schema.source_of_expression? he
    cases e with
    | column source name => cases hlocalized
    | localized table key source name =>
      have hp : projected? s n = some (.named (.localized table key source name) f.name) := by
        simp [projected?, hf, he]
      exact hsource ▸ h _ hp rfl
  · intro h p hp
    simp only [projected?, Option.bind_eq_bind, Option.bind_eq_some_iff] at hp
    obtain ⟨f, -, e, he, hp⟩ := hp
    have hsource := Schema.source_of_expression? he
    have hlocalized := Schema.isLocalized_iff_localizes he
    cases e with
    | column source name =>
      cases hp
      exact trivial
    | localized table key source name =>
      cases hp
      exact fun h' => hsource ▸ h (hlocalized.mp h')

/-- A row that is read along reaches the row around it unless that goes by its alias. -/
theorem relatedRow?_reaches {fetch : RelationFetch} {p : Projected}
    (h : relatedRow? r s fetch = some p) : p.Reaches ↔ s.name ≠ EmbeddedRow.rowAlias := by
  simp only [relatedRow?, Option.bind_eq_bind, Option.bind_eq_some_iff] at h
  obtain ⟨f, hf, relation, hrelation, related, hrelated, hrow⟩ := h
  obtain ⟨pairs, hpairs, rfl⟩ := embeddedRow?_eq_some hrow
  have hinner : ∀ pair ∈ pairs, pair.2.isLocalized = true →
      pair.2.source ≠ Expression.localizedAlias := by
    intro pair hpair _
    obtain ⟨n, hn⟩ := hpairs pair hpair
    rw [Schema.source_of_expression? hn]
    decide
  exact ⟨And.left, fun h => ⟨h, hinner⟩⟩

/-- Every query that is read is one on a model of the registry. -/
theorem schema?_of_mem_visits (q : Query) : ∀ (s : Schema) (root : Bool)
    (join : Option JoinClause), r.schema? s.name = some s →
      ∀ v ∈ q.visits r s root join, r.schema? v.schema.name = some v.schema := by
  induction q using Query.induction with
  | step options model condition joins ih =>
    intro s root join hs v hv
    rw [visits_eq] at hv
    rcases List.mem_cons.mp hv with rfl | hjoined
    · exact hs
    · dsimp only at hjoined
      induction joins with
      | nil => cases hjoined
      | cons j rest ihrest =>
        rw [joinedVisits] at hjoined
        rcases List.mem_append.mp hjoined with hfirst | hothers
        · have hj := ih j (List.mem_cons_self ..)
          obtain ⟨kind, field, query⟩ := j
          rw [visitsOfJoin] at hfirst
          split at hfirst
          · cases hfirst
          · next t clause hjoin =>
            have ht := schema?_of_joinClause? hjoin
            exact hj t false (some clause) ((Registry.schema?_name ht).symm ▸ ht) v hfirst
        · exact ihrest (fun x hx => ih x (List.mem_cons_of_mem _ hx))
            (List.mem_cons_of_mem _ hothers) hothers

end Query

namespace Visit

variable {r : Registry} {v : Visit}

theorem rows_reach : (∀ p ∈ v.rows r, p.Reaches) ↔
    (v.rows r ≠ [] → v.schema.name ≠ EmbeddedRow.rowAlias) := by
  have hrow : ∀ p ∈ v.rows r, (p.Reaches ↔ v.schema.name ≠ EmbeddedRow.rowAlias) := by
    intro p hp
    obtain ⟨fetch, -, hfetch⟩ := List.mem_filterMap.mp hp
    exact Query.relatedRow?_reaches hfetch
  constructor
  · intro h hsome
    obtain ⟨p, hp⟩ := List.exists_mem_of_ne_nil _ hsome
    exact (hrow p hp).mp (h p hp)
  · intro h p hp
    exact (hrow p hp).mpr (h (List.ne_nil_of_mem hp))

theorem projection_reaches : (∀ p ∈ v.projection r, p.Reaches) ↔
    (v.rows r ≠ [] → v.schema.name ≠ EmbeddedRow.rowAlias) ∧
    ∀ n ∈ Query.fieldNames v.schema v.options, v.schema.Localizes n →
      v.schema.name ≠ Expression.localizedAlias := by
  have hkey : ∀ p ∈ (if v.root then Query.rootKey v.schema
      (Query.fieldNames v.schema v.options) else []), p.Reaches := by
    intro p hp
    split at hp
    · unfold Query.rootKey at hp
      split at hp
      · cases hp
      · rw [List.mem_singleton.mp hp]
        exact trivial
    · cases hp
  rw [Source.projection, Query.ownProjection]
  simp only [List.forall_mem_append, List.forall_mem_filterMap, Query.projected?_reaches]
  constructor
  · intro h
    exact ⟨rows_reach.mp h.2, h.1.2⟩
  · intro h
    exact ⟨⟨hkey, h.2⟩, rows_reach.mpr h.1⟩

theorem order_captureFree (hv : r.schema? v.schema.name = some v.schema) :
    (∀ o ∈ (v.clauses r).order, ∀ m ∈ o.expression.mentions, m.CaptureFree) ↔
      ∀ o ∈ v.options.orderBy, v.schema.Localizes o.field →
        v.schema.name ≠ Expression.localizedAlias := by
  simp only [Expression.captureFree_mentions, clauses, List.forall_mem_filterMap]
  refine forall₂_congr fun o _ => ?_
  constructor
  · intro h hlocalizes
    obtain ⟨e, he⟩ := Schema.exists_expression?_of_localizes hlocalizes v.schema.name
    have hlocalized := (Schema.isLocalized_iff_localizes he).mpr hlocalizes
    have ho : Query.orderClause? r v.schema.name o = some ⟨e, o.ascending⟩ := by
      simp [Query.orderClause?, Registry.expression?, hv, he]
    exact Schema.source_of_expression? he ▸ h _ ho hlocalized
  · intro h clause hclause hlocalized
    obtain ⟨e, he, rfl⟩ := Option.map_eq_some_iff.mp hclause
    rw [Registry.expression?, hv, Option.bind_some] at he
    exact Schema.source_of_expression? he ▸ h ((Schema.isLocalized_iff_localizes he).mp hlocalized)

end Visit

namespace Query

variable {r : Registry} {s : Schema} {q : Query} {selected : Selection}
  (hclauses : selected.clauses =
    Clauses.concat ((q.visits r s true none).map (Visit.clauses r)))

include hclauses

theorem captureFree_projection :
    (∀ m ∈ selected.clauses.projection.flatMap Projected.mentions, m.CaptureFree) ↔
      ∀ v ∈ q.visits r s true none,
        (v.rows r ≠ [] → v.schema.name ≠ EmbeddedRow.rowAlias) ∧
        ∀ n ∈ fieldNames v.schema v.options, v.schema.Localizes n →
          v.schema.name ≠ Expression.localizedAlias := by
  rw [hclauses, Clauses.concat_projection, List.flatMap_map]
  simp only [List.forall_mem_flatMap, Projected.captureFree_mentions]
  exact forall₂_congr fun v _ => v.projection_reaches

theorem captureFree_order (hs : r.schema? s.name = some s) :
    (∀ m ∈ selected.clauses.order.flatMap fun o => o.expression.mentions, m.CaptureFree) ↔
      ∀ v ∈ q.visits r s true none, ∀ o ∈ v.options.orderBy, v.schema.Localizes o.field →
        v.schema.name ≠ Expression.localizedAlias := by
  rw [hclauses, Clauses.concat_order, List.flatMap_map]
  simp only [List.forall_mem_flatMap]
  exact forall₂_congr fun v hv => v.order_captureFree (schema?_of_mem_visits q s true none hs v hv)

theorem captureFree_filters : (∀ m ∈ selected.filterMentions, m.CaptureFree) ↔
    ∀ e ∈ q.compared r s, e.isLocalized = true → e.source ≠ Expression.localizedAlias := by
  have hjoins : ∀ m ∈ selected.clauses.joins.flatMap JoinClause.mentions, m.CaptureFree := by
    refine List.forall_mem_flatMap.mpr fun j _ => ?_
    simp [JoinClause.mentions, Mention.CaptureFree.table, Mention.CaptureFree.column]
  rw [Selection.filterMentions, List.forall_mem_append, mentions_conditions hclauses,
    and_iff_right hjoins]
  simp only [List.forall_mem_flatMap, Expression.captureFree_mentions]

end Query

/-- The subselects of a query reach the rows around them exactly when no model that reads rows along
has the alias of these, and none of which localized values are read or compared has the alias of
those. So they do where no model of the registry has the name of an alias. -/
theorem subselects_capture_free_iff {r : Registry} {q : Query} {selected : Selection}
    (h : q.selection r = .ok selected) (d : Dialect) :
    ∃ s, r.schema? q.model = some s ∧
      ((∀ m ∈ mentions d ((selected.selectSql d).statement d).sql, m.CaptureFree) ↔
        q.AvoidsCapture r s) ∧
      ((∀ m ∈ mentions d ((selected.countSql d).statement d).sql, m.CaptureFree) ↔
        ∀ e ∈ q.compared r s, e.isLocalized = true → e.source ≠ Expression.localizedAlias) ∧
      (r.AvoidsAliases → q.AvoidsCapture r s) := by
  obtain ⟨s, hs, -, hclauses⟩ := Query.selection_eq_concat h
  have hname : r.schema? s.name = some s := (Registry.schema?_name hs).symm ▸ hs
  have hprojection := Query.captureFree_projection hclauses
  have horder := Query.captureFree_order hclauses hname
  have hfilters := Query.captureFree_filters hclauses
  have htable : ∀ m ∈ [Mention.table selected.table], m.CaptureFree :=
    List.forall_mem_singleton.mpr (.table _)
  have hcount : ∀ m ∈ [Mention.label Selection.totalColumn, .table selected.table],
    m.CaptureFree := List.forall_mem_cons.mpr ⟨.label _, htable⟩
  refine ⟨s, hs, ?_, ?_, ?_⟩
  · rw [(selected.mentions_selectSql d).mentions_eq, Selection.selectMentions]
    simp only [List.forall_mem_append, hprojection, horder, hfilters]
    constructor
    · rintro ⟨⟨⟨hread, -⟩, hcompared⟩, hordered⟩
      refine ⟨fun v hv => (hread v hv).1, fun v hv n hn => ?_, hcompared⟩
      rcases List.mem_append.mp hn with hfield | horder
      · exact (hread v hv).2 n hfield
      · obtain ⟨o, ho, rfl⟩ := List.mem_map.mp horder
        exact hordered v hv o ho
    · rintro ⟨hrows, hvalues, hcompared⟩
      refine ⟨⟨⟨fun v hv => ⟨hrows v hv, fun n hn => ?_⟩, htable⟩, hcompared⟩,
        fun v hv o ho => ?_⟩
      · exact hvalues v hv n (List.mem_append_left _ hn)
      · exact hvalues v hv o.field (List.mem_append_right _ (List.mem_map_of_mem ho))
  · rw [(selected.mentions_countSql d).mentions_eq, Selection.countMentions,
      List.forall_mem_append, hfilters]
    exact and_iff_right hcount
  · intro haliases
    have hschema : ∀ v ∈ q.visits r s true none, v.schema ∈ r.schemas := fun v hv =>
      Registry.schema?_mem (Query.schema?_of_mem_visits q s true none hname v hv)
    refine ⟨fun v hv _ => (haliases _ (hschema v hv)).1,
      fun v hv _ _ _ => (haliases _ (hschema v hv)).2, fun e he _ => ?_⟩
    obtain ⟨v, hv, c, -, he⟩ := Query.exists_condition_of_compared he
    obtain ⟨n, hn⟩ := (Condition.source_of_compared he).1
    obtain ⟨t, ht, -⟩ := Option.bind_eq_some_iff.mp hn
    exact Registry.schema?_name ht ▸ (haliases t (Registry.schema?_mem ht)).2

namespace Sample

def owned (name : String) : Schema where
  name
  fields := [
    { name := "id", type := .integer, primary := true },
    { name := "title", type := .string, multilingual := true },
    .ofRelation "owner" "User" .oneToOne]

def ownedModels : Registry := ⟨[user, owned "Role", owned "c", owned "t"], rfl⟩

def ownedTitles (model : String) : Query :=
  let owner : RelationFetch := { name := "owner", fields := some ["name"] }
  ((Query.ofModel model).select ["title"]).fetch owner

end Sample

open Sample in
theorem subselects_capture_free_of_roles : ∃ selected,
    (ownedTitles "Role").selection ownedModels = .ok selected ∧
    (ownedTitles "Role").AvoidsCapture ownedModels (owned "Role") ∧
    ∀ m ∈ mentions .mysql ((selected.selectSql .mysql).statement .mysql).sql, m.CaptureFree := by
  refine ⟨_, rfl, ?_⟩
  obtain ⟨s, hs, hselect, -, -⟩ := subselects_capture_free_iff (r := ownedModels)
    (q := ownedTitles "Role") rfl .mysql
  cases hs
  have hvisits : ∀ v ∈ (ownedTitles "Role").visits ownedModels (owned "Role") true none,
      v.schema.name = "Role" := List.forall_mem_singleton.mpr rfl
  have havoids : (ownedTitles "Role").AvoidsCapture ownedModels (owned "Role") := by
    refine ⟨fun v hv _ => ?_, fun v hv _ _ _ => ?_, fun e he => ?_⟩
    · rw [hvisits v hv]
      decide
    · rw [hvisits v hv]
      decide
    · cases he
  exact ⟨havoids, hselect.mpr havoids⟩

open Sample in
/-- Of a model named as the alias of rows read along, the owner is looked for in the row of the
owner itself; of one named as the alias of localized values, any value is taken for the row's
own. -/
theorem subselects_capture :
    (∃ selected, (ownedTitles "c").selection ownedModels = .ok selected ∧
      .scope [.column (some "c") "name", .table "User", .label "c",
        .column (some "c") "id", .column (some "c") "owner"] ∈
          mentions .mysql ((selected.selectSql .mysql).statement .mysql).sql ∧
      ¬ ∀ m ∈ mentions .mysql ((selected.selectSql .mysql).statement .mysql).sql,
        m.CaptureFree) ∧
    ∃ selected, (ownedTitles "t").selection ownedModels = .ok selected ∧
      .scope [.column (some "t") "title", .table "t_translation", .label "t",
        .column (some "t") "id", .column (some "t") "id"] ∈
          mentions .mysql ((selected.selectSql .mysql).statement .mysql).sql ∧
      ¬ ∀ m ∈ mentions .mysql ((selected.selectSql .mysql).statement .mysql).sql,
        m.CaptureFree := by
  have hrow := @captureFree_comparison
    [.column (some "c") "name", .table "User", .label "c"] "c" "id" "c" "owner"
  have hvalue := @captureFree_comparison
    [.column (some "t") "title", .table "t_translation", .label "t"] "t" "id" "t" "id"
  refine ⟨⟨_, rfl, ?_⟩, _, rfl, ?_⟩
  · rw [(Selection.mentions_selectSql _ _).mentions_eq]
    refine and_iff_left_of_imp (fun hmem h => ?_) |>.mpr (List.mem_of_getElem? (i := 3) rfl)
    exact (hrow.mp (h _ hmem)).2.1 (by decide)
  · rw [(Selection.mentions_selectSql _ _).mentions_eq]
    refine and_iff_left_of_imp (fun hmem h => ?_) |>.mpr (List.mem_of_getElem? (i := 1) rfl)
    exact (hvalue.mp (h _ hmem)).2.1 (by decide)

end EntityStore
