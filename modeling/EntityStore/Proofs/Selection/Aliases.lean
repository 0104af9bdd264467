import EntityStore.Proofs.Selection.ColumnNames
import EntityStore.Proofs.Selection.Scope
import EntityStore.Proofs.Selection.Visits

/-!
Tables of a selection go by the names of their models, so the queries that are read together are
told apart only where no model is reached twice. What is projected, joined and ordered by is
qualified by these names; a comparison is qualified by the model that its condition names, which
need not be one of them.
-/
namespace EntityStore

open Reading

namespace Condition

mutual

def namedModels : Condition → List String
  | compare _ _ _ _ model => model.toList
  | connect _ children model => model.toList ++ namedModelsOf children

def namedModelsOf : List Condition → List String
  | [] => []
  | c :: rest => namedModels c ++ namedModelsOf rest

end

end Condition

namespace Query

def models (r : Registry) (s : Schema) (q : Query) : List String :=
  (q.visits r s true none).map fun v => v.schema.name

def compared (r : Registry) (s : Schema) (q : Query) : List Expression :=
  (q.visits r s true none).flatMap fun v =>
    v.condition.elim [] (Condition.compared r v.schema.name)

structure WellScoped (r : Registry) (s : Schema) (q : Query) : Prop where
  /-- No model is reached twice. -/
  models_apart : (q.models r s).Nodup
  /-- An own column that is compared is one of a model that is reached. -/
  comparisons_reach : ∀ e ∈ q.compared r s, e.isLocalized = false → e.source ∈ q.models r s

end Query

section Sources

variable {r : Registry} {s : Schema} {e : Expression}

theorem Schema.source_of_expression? {source n : String} (h : s.expression? source n = some e) :
    e.source = source := by
  unfold expression? at h
  split at h
  · split at h
    · cases h
      rfl
    · cases h
  · split at h
    · cases h
    · split at h
      · cases h
        rfl
      · cases h
        rfl

theorem Registry.source_of_expression? {model n : String} (h : r.expression? model n = some e) :
    e.source = model := by
  obtain ⟨s, -, hs⟩ := Option.bind_eq_some_iff.mp h
  exact s.source_of_expression? hs

namespace Condition

theorem namedModelsOf_eq_flatMap (cs : List Condition) :
    namedModelsOf cs = cs.flatMap namedModels := by
  induction cs with
  | nil => rfl
  | cons c rest ih => rw [namedModelsOf, ih, List.flatMap_cons]

theorem leavesOf_eq_flatMap (r : Registry) (start : String) (path : List (Option String))
    (cs : List Condition) : leavesOf r start path cs = cs.flatMap (leaves r start path) := by
  induction cs with
  | nil => rfl
  | cons c rest ih => rw [leavesOf, ih, List.flatMap_cons]

/-- The model on which a node speaks is named by the node or stands above it. -/
theorem sourceAt_cons_mem (start : String) (model : Option String)
    (path : List (Option String)) :
    sourceAt start (model :: path) = sourceAt start path ∨
      sourceAt start (model :: path) ∈ model.toList := by
  rw [sourceAt_cons]
  cases model with
  | none => exact .inl rfl
  | some named => exact .inr (List.mem_singleton.mpr rfl)

/-- What is compared is read of a model that stands above the comparison or that a node names. -/
theorem expression_of_leaves (r : Registry) (start : String) (c : Condition) : ∀ path,
    ∀ e ∈ (leaves r start path c).flatMap Leaf.expressions, ∃ model n,
      r.expression? model n = some e ∧ (model = sourceAt start path ∨ model ∈ c.namedModels) := by
  induction c using Condition.induction with
  | compare field operator value isField model =>
    intro path e he
    rw [leaves] at he
    have hread : ∃ n, r.expression? (sourceAt start (model :: path)) n = some e := by
      split at he
      · next left right hleft hright =>
        rw [List.flatMap_singleton] at he
        rcases List.mem_cons.mp he with rfl | he
        · exact ⟨field, hleft⟩
        · unfold operand? at hright
          split at hright
          · obtain ⟨other, hother, rfl⟩ := Option.map_eq_some_iff.mp hright
            rw [List.mem_singleton.mp he]
            exact ⟨_, hother⟩
          · cases hright
            cases he
      · cases he
    obtain ⟨n, hn⟩ := hread
    exact ⟨_, n, hn, sourceAt_cons_mem start model path⟩
  | connect operator children model ih =>
    intro path e he
    rw [leaves, leavesOf_eq_flatMap, List.flatMap_assoc] at he
    obtain ⟨c, hc, he⟩ := List.mem_flatMap.mp he
    obtain ⟨source, n, hn, hsource⟩ := ih c hc (model :: path) e he
    refine ⟨source, n, hn, ?_⟩
    rw [namedModels, namedModelsOf_eq_flatMap, List.mem_append]
    rcases hsource with rfl | hbelow
    · exact (sourceAt_cons_mem start model path).imp id .inl
    · exact .inr (.inr (List.mem_flatMap.mpr ⟨c, hc, hbelow⟩))

/-- What is compared is stored by the condition's own model or by one that a node names. -/
theorem source_of_compared {model : String} {c : Condition} (he : e ∈ c.compared r model) :
    (∃ n, r.expression? e.source n = some e) ∧ (e.source = model ∨ e.source ∈ c.namedModels) := by
  obtain ⟨source, n, hn, hsource⟩ := expression_of_leaves r model c [] e he
  rw [Registry.source_of_expression? hn]
  exact ⟨⟨n, hn⟩, hsource⟩

end Condition

namespace Visit

variable {v : Visit}

/-- A query projects columns of its own model. -/
theorem qualifiers_projection {p : Projected} (hp : p ∈ v.projection r) :
    ∀ name ∈ p.qualifiers, name = v.schema.name := by
  intro name hname
  rcases List.mem_append.mp hp with hown | hrow
  · rcases List.mem_append.mp hown with hkey | hfield
    · unfold Query.rootKey at hkey
      split at hkey
      · split at hkey
        · cases hkey
        · rw [List.mem_singleton.mp hkey] at hname
          exact List.mem_singleton.mp hname
      · cases hkey
    · obtain ⟨n, -, hn⟩ := List.mem_filterMap.mp hfield
      simp only [Query.projected?, Option.bind_eq_bind, Option.bind_eq_some_iff] at hn
      obtain ⟨f, -, e, he, hp⟩ := hn
      have hsource := v.schema.source_of_expression? he
      cases e with
      | column source column =>
        cases hp
        rw [← hsource]
        exact List.mem_singleton.mp hname
      | localized table key source column =>
        cases hp
        cases hname
  · obtain ⟨fetch, -, hfetch⟩ := List.mem_filterMap.mp hrow
    obtain ⟨row, rfl⟩ := (Query.relatedRow?_eq_some hfetch).1
    cases hname

/-- A query is ordered by what its own model stores. -/
theorem qualifiers_order {o : OrderClause} (ho : o ∈ (v.clauses r).order) :
    ∀ name ∈ qualifiers o.expression.mentions, name = v.schema.name := by
  obtain ⟨by_, -, hby⟩ := List.mem_filterMap.mp ho
  obtain ⟨e, he, rfl⟩ := Option.map_eq_some_iff.mp hby
  intro name hname
  rw [e.qualifiers_mentions] at hname
  split at hname
  · cases hname
  · rw [List.mem_singleton.mp hname]
    exact Registry.source_of_expression? he

end Visit

end Sources

section Tables

variable {ms : List Mention}

/-- Values behind a table give it no other name. -/
theorem tablesOf_table_values (table : String) (h : ms.all Mention.isValue = true) :
    tablesOf (.table table :: ms) = [(table, table)] := by
  have hnone := tablesOf_values (Mention.no_table_of_values h)
  cases ms with
  | nil => rfl
  | cons m rest =>
    rw [List.all_cons, Bool.and_eq_true] at h
    cases m with
    | label name => cases h.1
    | _ => exact congrArg ((table, table) :: ·) hnone

theorem tablesOf_joins (joins : List JoinClause) (h : ms.all Mention.isValue = true) :
    tablesOf (joins.flatMap JoinClause.mentions ++ ms) =
      joins.map fun j => (j.target, j.target) := by
  induction joins with
  | nil => exact tablesOf_values (Mention.no_table_of_values h)
  | cons j rest ih => exact congrArg ((j.target, j.target) :: ·) ih

/-- The tables of a statement: the one behind FROM, and those of its joins. -/
theorem namesOf_joined {before : List Mention} (hbefore : before.any Mention.isTable = false)
    (table : String) (joins : List JoinClause) (h : ms.all Mention.isValue = true) :
    namesOf (before ++ .table table :: (joins.flatMap JoinClause.mentions ++ ms)) =
      table :: joins.map JoinClause.target := by
  have htables : tablesOf (.table table :: (joins.flatMap JoinClause.mentions ++ ms)) =
      (table, table) :: joins.map fun j => (j.target, j.target) := by
    cases joins with
    | nil => exact tablesOf_table_values table h
    | cons j rest => exact congrArg ((table, table) :: ·) (tablesOf_joins (j :: rest) h)
  rw [namesOf, tablesOf_append hbefore, htables, List.map_cons, List.map_map]
  rfl

namespace Selection

variable (selected : Selection)

theorem values_conditions :
    (selected.clauses.conditions.flatMap Predicate.mentions).all Mention.isValue = true := by
  rw [List.all_flatMap, List.all_eq_true]
  exact fun p _ => p.mentions_values

theorem values_order : (selected.clauses.order.flatMap fun o => o.expression.mentions).all
    Mention.isValue = true := by
  rw [List.all_flatMap, List.all_eq_true]
  exact fun o _ => o.expression.mentions_values

theorem projection_no_table :
    (selected.clauses.projection.flatMap Projected.mentions).any Mention.isTable = false := by
  rw [List.any_flatMap, List.any_eq_false]
  intro p _
  simp [p.mentions_no_table]

def aliases : List String :=
  selected.table :: selected.clauses.joins.map JoinClause.target

theorem namesOf_selectMentions : namesOf selected.selectMentions = selected.aliases := by
  have hvalues : (selected.clauses.conditions.flatMap Predicate.mentions ++
      selected.clauses.order.flatMap fun o => o.expression.mentions).all
        Mention.isValue = true := by
    rw [List.all_append, selected.values_conditions, selected.values_order, Bool.and_self]
  have hnames := namesOf_joined selected.projection_no_table selected.table
    selected.clauses.joins hvalues
  simpa [selectMentions, filterMentions, aliases] using hnames

theorem namesOf_countMentions : namesOf selected.countMentions = selected.aliases := by
  have hlabel : [Mention.label totalColumn].any Mention.isTable = false := rfl
  exact namesOf_joined hlabel selected.table selected.clauses.joins selected.values_conditions

end Selection

end Tables

namespace Query

variable {r : Registry} {s : Schema} {q : Query} {selected : Selection}

private theorem targets_of_joined {vs : List Visit}
    (h : ∀ v ∈ vs, ∃ j, v.join = some j ∧ j.target = v.schema.name) :
    (vs.flatMap fun v => v.join.toList).map JoinClause.target =
      vs.map fun v => v.schema.name := by
  induction vs with
  | nil => rfl
  | cons v rest ih =>
    obtain ⟨⟨j, hj, htarget⟩, hrest⟩ := List.forall_mem_cons.mp h
    rw [List.flatMap_cons, hj, List.map_append, ih hrest, List.map_cons, ← htarget]
    rfl

/-- The tables of a selection are those of the models that are reached. -/
theorem aliases_eq_models (htable : selected.table = s.name)
    (hclauses : selected.clauses =
      Clauses.concat ((q.visits r s true none).map (Visit.clauses r))) :
    selected.aliases = q.models r s := by
  have htargets := @targets_of_joined (joinedVisits r s q.joins) fun v hv => by
    obtain ⟨j, hj, htarget, -⟩ := exists_join_of_mem_joinedVisits q s v hv
    exact ⟨j, hj, htarget⟩
  have hjoins : selected.clauses.joins =
      (joinedVisits r s q.joins).flatMap fun v => v.join.toList := by
    rw [hclauses, Clauses.concat_joins, visits_eq, List.flatMap_map, List.flatMap_cons]
    rfl
  rw [Selection.aliases, htable, hjoins, htargets, models, visits_eq, List.map_cons]

theorem mem_models {v : Visit} (hv : v ∈ q.visits r s true none) :
    v.schema.name ∈ q.models r s :=
  List.mem_map_of_mem hv

/-- The columns of a selection but for those that it compares are qualified by its models. -/
theorem qualifiers_projection_mem (hclauses : selected.clauses =
    Clauses.concat ((q.visits r s true none).map (Visit.clauses r))) :
    ∀ name ∈ qualifiers (selected.clauses.projection.flatMap Projected.mentions),
      name ∈ q.models r s := by
  rw [forall_mem_qualifiers_flatMap, hclauses, Clauses.concat_projection, List.flatMap_map,
    List.forall_mem_flatMap]
  intro v hv p hp name hname
  rw [p.qualifiers_mentions] at hname
  rw [v.qualifiers_projection hp name hname]
  exact mem_models hv

theorem qualifiers_order_mem (hclauses : selected.clauses =
    Clauses.concat ((q.visits r s true none).map (Visit.clauses r))) :
    ∀ name ∈ qualifiers (selected.clauses.order.flatMap fun o => o.expression.mentions),
      name ∈ q.models r s := by
  rw [forall_mem_qualifiers_flatMap, hclauses, Clauses.concat_order, List.flatMap_map,
    List.forall_mem_flatMap]
  intro v hv o ho name hname
  rw [v.qualifiers_order ho name hname]
  exact mem_models hv

theorem qualifiers_joins_mem (hclauses : selected.clauses =
    Clauses.concat ((q.visits r s true none).map (Visit.clauses r))) :
    ∀ name ∈ qualifiers (selected.clauses.joins.flatMap JoinClause.mentions),
      name ∈ q.models r s := by
  rw [forall_mem_qualifiers_flatMap, hclauses, Clauses.concat_joins, List.flatMap_map,
    List.forall_mem_flatMap]
  intro v hv j hj name hname
  have hroot : s.name ∈ q.models r s := by
    rw [models, visits_eq]
    exact List.mem_cons_self ..
  have hreached : ∀ u ∈ joinedVisits r s q.joins, u.schema.name ∈ q.models r s := by
    intro u hu
    rw [models, visits_eq]
    exact List.mem_cons_of_mem _ (List.mem_map_of_mem hu)
  rw [visits_eq] at hv
  rcases List.mem_cons.mp hv with rfl | hv
  · cases hj
  · obtain ⟨k, hk, htarget, hsource⟩ := exists_join_of_mem_joinedVisits q s v hv
    have hjk : j = k := by simpa [Visit.clauses, hk] using hj
    subst hjk
    have hnames : j.source = name ∨ j.target = name := by
      simpa [JoinClause.mentions, qualifiers, Mention.qualifier?] using hname
    rcases hnames with rfl | rfl
    · rcases hsource with heq | ⟨u, hu, heq⟩
      · exact heq ▸ hroot
      · exact heq ▸ hreached u hu
    · exact htarget ▸ hreached v hv

/-- What is mentioned of the conditions is what their kept comparisons compare. -/
theorem mentions_conditions (hclauses : selected.clauses =
    Clauses.concat ((q.visits r s true none).map (Visit.clauses r))) :
    selected.clauses.conditions.flatMap Predicate.mentions =
      (q.compared r s).flatMap Expression.mentions := by
  rw [hclauses, Clauses.concat_conditions, List.flatMap_map, List.flatMap_assoc, compared,
    List.flatMap_assoc]
  refine List.flatMap_congr fun v _ => ?_
  cases hcondition : v.condition with
  | none => simp [Visit.clauses, hcondition]
  | some c => simpa [Visit.clauses, hcondition] using c.mentions_resolve? r v.schema.name

/-- The models by which the compared columns are qualified. -/
theorem qualifiers_conditions (hclauses : selected.clauses =
    Clauses.concat ((q.visits r s true none).map (Visit.clauses r))) :
    qualifiers (selected.clauses.conditions.flatMap Predicate.mentions) =
      ((q.compared r s).filter fun e => !e.isLocalized).map Expression.source := by
  rw [mentions_conditions hclauses, qualifiers_flatMap]
  generalize q.compared r s = es
  induction es with
  | nil => rfl
  | cons e rest ih =>
    rw [List.flatMap_cons, ih, e.qualifiers_mentions]
    cases h : e.isLocalized <;> simp [h]

/-- What is compared is compared by the condition of a query that is read. -/
theorem exists_condition_of_compared {e : Expression} (he : e ∈ q.compared r s) :
    ∃ v ∈ q.visits r s true none, ∃ c, v.condition = some c ∧ e ∈ c.compared r v.schema.name := by
  obtain ⟨v, hv, he⟩ := List.mem_flatMap.mp he
  cases hcondition : v.condition with
  | none =>
    rw [hcondition] at he
    cases he
  | some c =>
    rw [hcondition] at he
    exact ⟨v, hv, c, hcondition, he⟩

/-- What is compared is stored by a model of the registry, which is reached or which a condition
names. -/
theorem source_of_compared : ∀ e ∈ q.compared r s,
    (∃ t n, r.schema? e.source = some t ∧ t.expression? e.source n = some e) ∧
    (e.source ∈ q.models r s ∨
      ∃ v ∈ q.visits r s true none, ∃ c, v.condition = some c ∧ e.source ∈ c.namedModels) := by
  intro e he
  obtain ⟨v, hv, c, hcondition, he⟩ := exists_condition_of_compared he
  obtain ⟨⟨n, hn⟩, hsource⟩ := Condition.source_of_compared he
  obtain ⟨t, ht, hexpression⟩ := Option.bind_eq_some_iff.mp hn
  refine ⟨⟨t, n, ht, hexpression⟩, ?_⟩
  rcases hsource with hown | hnamed
  · exact .inl (hown ▸ mem_models hv)
  · exact .inr ⟨v, hv, c, hcondition, hnamed⟩

/-- Of the columns that a statement mentions only those that are compared can be unknown. -/
theorem wellScoped_iff (haliases : selected.aliases = q.models r s)
    (hclauses : selected.clauses =
      Clauses.concat ((q.visits r s true none).map (Visit.clauses r)))
    {ms : List Mention} (hnames : namesOf ms = selected.aliases) (others : List Mention)
    (hothers : ∀ name ∈ qualifiers others, name ∈ q.models r s)
    (hms : ∀ name, name ∈ qualifiers ms ↔ name ∈ qualifiers others ∨
      name ∈ qualifiers (selected.clauses.conditions.flatMap Predicate.mentions)) :
    Reading.WellScoped ms ↔ q.WellScoped r s := by
  have hcompared : ∀ name,
      name ∈ qualifiers (selected.clauses.conditions.flatMap Predicate.mentions) ↔
        ∃ e ∈ q.compared r s, e.isLocalized = false ∧ e.source = name := by
    intro name
    rw [qualifiers_conditions hclauses, List.mem_map]
    simp only [List.mem_filter, Bool.not_eq_true', and_assoc]
  constructor
  · rintro ⟨hapart, hknown⟩
    rw [hnames, haliases] at hapart hknown
    refine ⟨hapart, fun e he hown => hknown _ ?_⟩
    exact (hms _).mpr (.inr ((hcompared _).mpr ⟨e, he, hown, rfl⟩))
  · rintro ⟨hapart, hreach⟩
    constructor <;> rw [hnames, haliases]
    · exact hapart
    · intro name hname
      rcases (hms name).mp hname with hother | hcondition
      · exact hothers name hother
      · obtain ⟨e, he, hown, rfl⟩ := (hcompared name).mp hcondition
        exact hreach e he hown

end Query

/-- The tables of both statements of a selection go by the names of the models that are reached.
All columns outside of subselects are qualified by these but for those of conditions, which are
qualified by the models that their kept comparisons speak of; these are models of the registry, and
are reached, or named by a condition. So the statements are well scoped exactly under the conditions
of `Query.WellScoped`. -/
theorem statements_scoped_iff {r : Registry} {q : Query} {selected : Selection}
    (h : q.selection r = .ok selected) (d : Dialect) :
    ∃ s, r.schema? q.model = some s ∧ selected.aliases = q.models r s ∧
      (∀ clause ∈ [selected.projectionSql d, selected.joinSql d, selected.orderSql d],
        ∀ name ∈ qualifiers (mentions d clause), name ∈ q.models r s) ∧
      qualifiers (mentions d ((selected.conditionSql d).statement d).sql) =
        ((q.compared r s).filter fun e => !e.isLocalized).map Expression.source ∧
      (∀ e ∈ q.compared r s,
        (∃ t n, r.schema? e.source = some t ∧ t.expression? e.source n = some e) ∧
        (e.source ∈ q.models r s ∨
          ∃ v ∈ q.visits r s true none, ∃ c, v.condition = some c ∧ e.source ∈ c.namedModels)) ∧
      ∀ statement ∈ [selected.selectSql d, selected.countSql d],
        namesOf (mentions d (statement.statement d).sql) = selected.aliases ∧
        (WellScoped (mentions d (statement.statement d).sql) ↔ q.WellScoped r s) := by
  obtain ⟨s, hs, htable, hclauses⟩ := Query.selection_eq_concat h
  have haliases := Query.aliases_eq_models htable hclauses
  have hprojection := Query.qualifiers_projection_mem hclauses
  have hjoins := Query.qualifiers_joins_mem hclauses
  have horder := Query.qualifiers_order_mem hclauses
  refine ⟨s, hs, haliases, ?_, ?_, Query.source_of_compared, ?_⟩
  · simp only [List.forall_mem_cons, List.not_mem_nil, false_implies, implies_true, and_true]
    rw [(selected.mentions_projectionSql d).mentions_eq, (selected.mentions_joinSql d).mentions_eq,
      (selected.mentions_orderSql d).mentions_eq]
    exact ⟨hprojection, hjoins, horder⟩
  · rw [(selected.mentions_conditionSql d).mentions_eq]
    exact Query.qualifiers_conditions hclauses
  · simp only [List.forall_mem_cons, List.not_mem_nil, false_implies, implies_true, and_true]
    rw [(selected.mentions_selectSql d).mentions_eq, (selected.mentions_countSql d).mentions_eq]
    refine ⟨⟨selected.namesOf_selectMentions, ?_⟩, selected.namesOf_countMentions, ?_⟩
    · refine Query.wellScoped_iff haliases hclauses selected.namesOf_selectMentions
        (selected.clauses.projection.flatMap Projected.mentions ++
          selected.clauses.joins.flatMap JoinClause.mentions ++
          selected.clauses.order.flatMap fun o => o.expression.mentions) ?_ ?_
      · simp only [qualifiers_append, List.forall_mem_append]
        exact ⟨⟨hprojection, hjoins⟩, horder⟩
      · intro name
        have htable : qualifiers [.table selected.table] = [] := rfl
        rw [Selection.selectMentions, Selection.filterMentions]
        simp only [qualifiers_append, List.mem_append, htable, List.not_mem_nil]
        tauto
    · refine Query.wellScoped_iff haliases hclauses selected.namesOf_countMentions
        (selected.clauses.joins.flatMap JoinClause.mentions) hjoins ?_
      intro name
      have htable : qualifiers [.label Selection.totalColumn, .table selected.table] = [] := rfl
      rw [Selection.countMentions, Selection.filterMentions]
      simp only [qualifiers_append, List.mem_append, htable, List.not_mem_nil, false_or]

namespace Sample

/-- The titles of roles whose owners, which are not joined to them, go by a name. -/
def titlesOfNamedOwners : Query :=
  let named : Condition := .comparison "name" .equal (.str "Ann")
  ((Query.ofModel "Role").select ["title"]).filter (named.onModel "User")

def titlesOfJoinedOwners : Query :=
  titlesOfNamedOwners.join .left "owner" ((Query.ofModel "User").select ["name"])

def titlesWithOwnersJoinedTwice : Query :=
  (titlesWith ["name"]).join .left "owner" ((Query.ofModel "User").select ["id"])

end Sample

open Sample in
theorem statements_scoped_of_titles : ∃ selected,
    titlesOfJoinedOwners.selection roles = .ok selected ∧ selected.aliases = ["Role", "User"] ∧
    titlesOfJoinedOwners.WellScoped roles role ∧
    WellScoped (mentions .mysql ((selected.selectSql .mysql).statement .mysql).sql) := by
  refine ⟨_, rfl, rfl, ?_⟩
  obtain ⟨s, hs, -, -, -, -, hscoped⟩ := statements_scoped_iff (r := roles)
    (q := titlesOfJoinedOwners) rfl .mysql
  cases hs
  have hreach : ∀ e ∈ titlesOfJoinedOwners.compared roles role, e.isLocalized = false →
      e.source ∈ titlesOfJoinedOwners.models roles role :=
    List.forall_mem_singleton.mpr fun _ => by decide
  have hwell : titlesOfJoinedOwners.WellScoped roles role := ⟨by decide, hreach⟩
  exact ⟨hwell, (hscoped _ (List.mem_cons_self ..)).2.mpr hwell⟩

open Sample in
/-- A column of a model that a condition names is compared where the model is not joined, and two
tables go by one name where a model is joined twice. -/
theorem statements_scopes_clash :
    (∃ selected, titlesOfNamedOwners.selection roles = .ok selected ∧
      selected.aliases = ["Role"] ∧
      ¬ WellScoped (mentions .mysql ((selected.selectSql .mysql).statement .mysql).sql) ∧
      ¬ WellScoped (mentions .mysql ((selected.countSql .mysql).statement .mysql).sql)) ∧
    ∃ selected, titlesWithOwnersJoinedTwice.selection roles = .ok selected ∧
      selected.aliases = ["Role", "User", "User"] ∧
      ¬ WellScoped (mentions .mysql ((selected.selectSql .mysql).statement .mysql).sql) ∧
      ¬ WellScoped (mentions .mysql ((selected.countSql .mysql).statement .mysql).sql) := by
  refine ⟨⟨_, rfl, rfl, ?_, ?_⟩, _, rfl, rfl, ?_, ?_⟩
  · rw [(Selection.mentions_selectSql _ _).mentions_eq]
    intro h
    exact absurd (h.columns_known "User" (by decide)) (by decide)
  · rw [(Selection.mentions_countSql _ _).mentions_eq]
    intro h
    exact absurd (h.columns_known "User" (by decide)) (by decide)
  · rw [(Selection.mentions_selectSql _ _).mentions_eq]
    intro h
    exact absurd h.names_apart (by decide)
  · rw [(Selection.mentions_countSql _ _).mentions_eq]
    intro h
    exact absurd h.names_apart (by decide)

end EntityStore
