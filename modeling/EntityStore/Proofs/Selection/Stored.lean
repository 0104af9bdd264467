import EntityStore.Proofs.Condition.Pruning
import EntityStore.Proofs.Reading.Command
import EntityStore.Proofs.Selection.Cleaning
import EntityStore.Proofs.Storage.Tables

/-!
What a query reads is stored: every table that its statements name is made, and every column is one
of its table. Expressions read columns of the model that they were made for, under whatever name its
table goes by; so do embedded rows and joins, as long as no model has the name of an alias.
-/
namespace EntityStore

open Reading

section Fits

variable {tables : List Table} {scopes : List (List (String × String))} {table column : String}

theorem fits_table (h : Provides tables table column) :
    Mention.Fits tables scopes (.table table) := by
  obtain ⟨t, ht, rfl, -⟩ := h
  exact .table ht

theorem fits_qualified {source : String} (h : Provides tables table column)
    (hsource : tableOf scopes source = table) :
    Mention.Fits tables scopes (.column (some source) column) := by
  obtain ⟨t, ht, hname, c, hc, rfl⟩ := h
  exact .qualified ht (hname.trans hsource.symm) hc

theorem fits_bare {source : String} (h : Provides tables table column) :
    Mention.Fits tables ([(source, table)] :: scopes) (.column none column) := by
  obtain ⟨t, ht, rfl, c, hc, rfl⟩ := h
  exact .bare ht hc

/-- Outside of a scope that does not have the name. -/
theorem tableOf_cons_of_ne {other source : String} (h : source ≠ other) :
    tableOf ([(other, table)] :: scopes) source = tableOf scopes source := by
  simp [tableOf, List.lookup_cons, beq_false_of_ne h]

theorem tableOf_cons_self (other : String) :
    tableOf ([(other, table)] :: scopes) other = table := by
  simp [tableOf]

def OwnNames (scopes : List (List (String × String))) : Prop :=
  ∀ source, tableOf scopes source = source

theorem ownNames_of_scope {scope : List (String × String)} (h : ∀ p ∈ scope, p.1 = p.2) :
    OwnNames [scope] := by
  intro source
  unfold tableOf
  rw [List.findSome?_cons]
  cases hfound : scope.lookup source with
  | none => rfl
  | some t =>
    obtain ⟨before, after, hsplit, -⟩ := List.lookup_eq_some_iff.mp hfound
    have hpair := h (source, t) (by simp [hsplit])
    exact hpair.symm

/-- Mentions before the first table do not change the tables. -/
theorem tablesOf_append {ms : List Mention} (h : ms.any Mention.isTable = false)
    (others : List Mention) : tablesOf (ms ++ others) = tablesOf others := by
  induction ms with
  | nil => rfl
  | cons m rest ih =>
    rw [List.any_cons, Bool.or_eq_false_iff] at h
    rw [List.cons_append, ← ih h.2]
    cases m with
    | table name => cases h.1
    | _ => rfl

/-- Tables go by their own names where nothing is named anew. -/
theorem tablesOf_own {ms : List Mention} (h : ∀ name, .label name ∉ ms) :
    ∀ p ∈ tablesOf ms, p.1 = p.2 := by
  induction ms with
  | nil => exact fun _ hp => absurd hp List.not_mem_nil
  | cons m rest ih =>
    have hrest := ih fun name hname => h name (List.mem_cons_of_mem _ hname)
    have htable : ∀ name, ∀ p ∈ (name, name) :: tablesOf rest, p.1 = p.2 := fun name =>
      List.forall_mem_cons.mpr ⟨rfl, hrest⟩
    cases m with
    | table name =>
      cases rest with
      | nil => exact htable name
      | cons next tail =>
        cases next with
        | label other => exact absurd (List.mem_cons_of_mem _ (List.mem_cons_self ..)) (h other)
        | _ => exact htable name
    | _ => exact hrest

theorem label_not_mem_values {ms : List Mention} (h : ms.all Mention.isValue = true)
    (name : String) : .label name ∉ ms := fun hmem => by
  cases List.all_eq_true.mp h _ hmem

end Fits

def Registry.AvoidsAliases (r : Registry) : Prop :=
  ∀ s ∈ r.schemas, s.name ≠ EmbeddedRow.rowAlias ∧ s.name ≠ Expression.localizedAlias

/-- What is mentioned fits wherever every table goes by its own name. -/
def Stored (tables : List Table) (ms : List Mention) : Prop :=
  ∀ scopes, OwnNames scopes → ∀ m ∈ ms, m.Fits tables scopes

section Stored

variable {tables : List Table} {ms ns : List Mention}

theorem Stored.append (hms : Stored tables ms) (hns : Stored tables ns) :
    Stored tables (ms ++ ns) := by
  intro scopes hscopes m hm
  rcases List.mem_append.mp hm with hleft | hright
  · exact hms scopes hscopes m hleft
  · exact hns scopes hscopes m hright

theorem stored_flatMap {α : Type} {said : α → List Mention} {xs : List α}
    (h : ∀ x ∈ xs, Stored tables (said x)) : Stored tables (xs.flatMap said) := by
  intro scopes hscopes m hm
  obtain ⟨x, hx, hm⟩ := List.mem_flatMap.mp hm
  exact h x hx scopes hscopes m hm

theorem stored_label (name : String) : Stored tables [.label name] := by
  intro scopes _ m hm
  rw [List.mem_singleton.mp hm]
  exact .label name

end Stored

section Expressions

variable {r : Registry} {s : Schema} {d : Dialect}

/-- An expression reads a column of the own table or one of the table of localized values. -/
theorem Schema.expression?_cases {source n : String} {e : Expression} (hs : s ∈ r.schemas)
    (he : s.expression? source n = some e) :
    (∃ column, e = .column source column ∧ r.Holds s.name column) ∨
    ∃ f ∈ s.localizedFields,
      e = .localized (localizedTable s.name) s.primaryKey source f.name := by
  unfold expression? at he
  split at he
  · split at he
    · next hkey =>
      cases he
      simp only [Bool.and_eq_true, beq_iff_eq] at hkey
      exact .inl ⟨n, rfl, hkey.2 ▸ .key hs⟩
    · cases he
  · next f hf =>
    have hmem := field?_mem hf
    split at he
    · cases he
    · next hcolumn =>
      simp only [Bool.not_eq_true', Bool.not_eq_false] at hcolumn
      split at he
      · next hlocalized =>
        cases he
        exact .inr ⟨f, mem_localizedFields.mpr ⟨hmem, hlocalized⟩, rfl⟩
      · next hown =>
        cases he
        have hown : f.isLocalized = false := by simpa using hown
        exact .inl ⟨f.name, rfl, .own hs (mem_ownFields.mpr ⟨hmem, hcolumn, hown⟩)⟩

/-- The expression fits where the table of its model goes by the name that it was made for. -/
theorem fits_expression (hkeys : r.HoldsKeys) (hs : s ∈ r.schemas) {source n : String}
    {e : Expression} (he : s.expression? source n = some e)
    (hne : source ≠ Expression.localizedAlias) {scopes : List (List (String × String))}
    (hsource : tableOf scopes source = s.name) :
    ∀ m ∈ e.mentions, m.Fits (r.tables d) scopes := by
  intro m hm
  rcases Schema.expression?_cases hs he with ⟨column, rfl, hholds⟩ | ⟨f, hf, rfl⟩
  · rw [List.mem_singleton.mp hm]
    exact fits_qualified (hholds.provided hkeys d) hsource
  · have hvalue := (Registry.Holds.localized hs hf).provided hkeys d
    have hinnerKey := (Registry.Holds.localizedKey hs hf).provided hkeys d
    have hkey := (Registry.Holds.key hs).provided hkeys d
    rw [List.mem_singleton.mp hm]
    refine .scope fun inner hinner => ?_
    simp only [List.mem_cons, List.not_mem_nil, or_false] at hinner
    rcases hinner with rfl | rfl | rfl | rfl | rfl
    · exact fits_qualified hvalue (tableOf_cons_self _)
    · exact fits_table hvalue
    · exact .label _
    · exact fits_qualified hinnerKey (tableOf_cons_self _)
    · exact fits_qualified hkey ((tableOf_cons_of_ne hne).trans hsource)

theorem stored_column (hkeys : r.HoldsKeys) {column : String} (h : r.Holds s.name column) :
    Stored (r.tables d) [.column (some s.name) column] := by
  intro scopes hscopes m hm
  rw [List.mem_singleton.mp hm]
  exact fits_qualified (h.provided hkeys d) (hscopes s.name)

theorem stored_joinClause (hkeys : r.HoldsKeys) (hs : s ∈ r.schemas) {kind : JoinKind}
    {field target : String} {t : Schema} {clause : JoinClause}
    (h : Query.joinClause? r s kind field target = some (t, clause)) :
    Stored (r.tables d) clause.mentions := by
  have ht := Query.schema?_of_joinClause? h
  simp only [Query.joinClause?, Option.bind_eq_bind, Option.bind_eq_some_iff] at h
  obtain ⟨u, hu, f, hf, hkept⟩ := h
  split at hkept
  · next hfits =>
    cases hkept
    have hname : t.name = target := Registry.schema?_name ht
    subst hname
    have hfield : f.name = field := Query.field?_name hf
    subst hfield
    simp only [Bool.and_eq_true, Bool.not_eq_true'] at hfits
    have hown := Schema.mem_ownFields.mpr ⟨Schema.field?_mem hf, hfits⟩
    have hkey := Registry.Holds.key (Registry.schema?_mem ht)
    have htable : Stored (r.tables d) [.table t.name] := by
      intro scopes _ m hm
      rw [List.mem_singleton.mp hm]
      exact fits_table (hkey.provided hkeys d)
    exact htable.append ((stored_column hkeys (.own hs hown)).append (stored_column hkeys hkey))
  · cases hkept

end Expressions

/-- The pairs of an embedded row read fields of the related model under the alias. -/
theorem Query.embeddedRow?_eq_some {s related : Schema} {f : Field} {fetch : RelationFetch}
    {p : Projected} (h : embeddedRow? s f fetch related = some p) :
    ∃ pairs : List (String × Expression),
      (∀ pair ∈ pairs, ∃ n, related.expression? EmbeddedRow.rowAlias n = some pair.2) ∧
      p = .embedded ⟨related.name, related.primaryKey, pairs, s.name, f.name⟩ := by
  unfold embeddedRow? at h
  dsimp only at h
  split at h
  · cases h
  · cases h
    refine ⟨_, fun pair hpair => ?_, rfl⟩
    obtain ⟨n, -, hn⟩ := List.mem_filterMap.mp hpair
    obtain ⟨e, he, rfl⟩ := Option.map_eq_some_iff.mp hn
    exact ⟨n, he⟩

section Clauses

variable {r : Registry} {s : Schema} {d : Dialect} (hkeys : r.HoldsKeys) (halias : r.AvoidsAliases)

include hkeys halias

/-- The expression that reads a field of a model under the model's own name. -/
theorem stored_expression (hs : s ∈ r.schemas) {n : String} {e : Expression}
    (he : s.expression? s.name n = some e) : Stored (r.tables d) e.mentions := fun _ hscopes =>
  fits_expression hkeys hs he (halias s hs).2 (hscopes s.name)

theorem stored_fieldExpression {model n : String} {e : Expression}
    (he : r.expression? model n = some e) : Stored (r.tables d) e.mentions := by
  obtain ⟨s, hs, hfield⟩ := Option.bind_eq_some_iff.mp he
  have hname : s.name = model := Registry.schema?_name hs
  subst hname
  exact stored_expression hkeys halias (Registry.schema?_mem hs) hfield

/-- What is left of a condition compares fields that are stored. -/
theorem stored_condition (c : Condition) : ∀ (model : String) (p : Predicate),
    c.resolve? r model = some p → Stored (r.tables d) p.mentions := by
  induction c using Condition.induction with
  | compare field operator value isField model =>
    intro start p hp
    simp only [Condition.resolve?, Option.bind_eq_bind, Option.bind_eq_some_iff] at hp
    obtain ⟨left, hleft, right, hright, hp⟩ := hp
    cases hp
    rw [Predicate.mentions]
    refine (stored_fieldExpression hkeys halias hleft).append ?_
    unfold Condition.operand? at hright
    split at hright
    · obtain ⟨e, he, rfl⟩ := Option.map_eq_some_iff.mp hright
      exact stored_fieldExpression hkeys halias he
    · cases hright
      exact fun _ _ _ hm => absurd hm List.not_mem_nil
  | connect operator children model ih =>
    intro start
    have hkept : ∀ q ∈ Condition.resolveAll r (model.getD start) children,
        Stored (r.tables d) q.mentions := by
      induction children with
      | nil => exact fun _ hq => absurd hq List.not_mem_nil
      | cons c rest ihrest =>
        intro q hq
        rw [Condition.resolveAll] at hq
        rcases List.mem_append.mp hq with hfirst | hothers
        · exact ih c (List.mem_cons_self ..) _ q (Option.mem_toList.mp hfirst)
        · exact ihrest (fun x hx => ih x (List.mem_cons_of_mem _ hx)) q hothers
    intro p hp
    rw [Condition.resolve?] at hp
    split at hp
    · cases hp
    · next kept _ =>
      cases hp
      rw [Predicate.mentions, Predicate.mentionsOf_eq_flatMap]
      exact stored_flatMap hkept

theorem stored_projected (hs : s ∈ r.schemas) {n : String} {p : Projected}
    (hp : Query.projected? s n = some p) : Stored (r.tables d) p.mentions := by
  simp only [Query.projected?, Option.bind_eq_bind, Option.bind_eq_some_iff] at hp
  obtain ⟨f, -, e, he, hp⟩ := hp
  have hstored := stored_expression (d := d) hkeys halias hs he
  cases e with
  | column source name =>
    cases hp
    exact hstored
  | localized table key source name =>
    cases hp
    exact hstored.append (stored_label f.name)

theorem stored_ownProjection (hs : s ∈ r.schemas) (root : Bool) (o : ReadOptions) :
    ∀ p ∈ Query.ownProjection s root o, Stored (r.tables d) p.mentions := by
  intro p hp
  rcases List.mem_append.mp hp with hkey | hfield
  · unfold Query.rootKey at hkey
    split at hkey
    · split at hkey
      · cases hkey
      · rw [List.mem_singleton.mp hkey]
        exact stored_column hkeys (.key hs)
    · cases hkey
  · obtain ⟨n, -, hn⟩ := List.mem_filterMap.mp hfield
    exact stored_projected hkeys halias hs hn

/-- Inside the subselect the related table goes by an alias, and the row around it by the name of
its model, which is another. -/
theorem stored_embeddedRow (hs : s ∈ r.schemas) {f : Field} (hf : f ∈ s.fields)
    (hreference : f.isReference = true) {fetch : RelationFetch} {related : Schema}
    (hrelated : related ∈ r.schemas) {p : Projected}
    (hp : Query.embeddedRow? s f fetch related = some p) : Stored (r.tables d) p.mentions := by
  obtain ⟨pairs, hpairs, rfl⟩ := Query.embeddedRow?_eq_some hp
  intro scopes hscopes m hm
  rcases (List.mem_cons.mp hm).symm with hlabel | rfl
  · exact stored_label f.name scopes hscopes m hlabel
  have hno := Mention.no_table_of_values (pairs_mentions_values pairs)
  have hkey := (Registry.Holds.key hrelated).provided hkeys d
  refine .scope fun inner hinner => ?_
  rw [tablesOf_append hno]
  rcases List.mem_append.mp hinner with hpair | hrest
  · obtain ⟨pair, hpair, hinner⟩ := List.mem_flatMap.mp hpair
    obtain ⟨n, hn⟩ := hpairs pair hpair
    exact fits_expression hkeys hrelated hn (by decide) (tableOf_cons_self _) inner hinner
  · simp only [List.mem_cons, List.not_mem_nil, or_false] at hrest
    rcases hrest with rfl | rfl | rfl | rfl
    · exact fits_table hkey
    · exact .label _
    · exact fits_qualified hkey (tableOf_cons_self _)
    · have hcolumn := (Registry.holds_reference hs hf hreference).provided hkeys d
      exact fits_qualified hcolumn
        ((tableOf_cons_of_ne (halias s hs).1).trans (hscopes s.name))

theorem stored_embeddedRows (hs : s ∈ r.schemas) {relations : List RelationFetch}
    {rows : List Projected} (h : Query.embeddedRows r s relations = .ok rows) :
    ∀ p ∈ rows, Stored (r.tables d) p.mentions := by
  rw [Query.embeddedRows_eq h]
  intro p hp
  obtain ⟨fetch, -, hfetch⟩ := List.mem_filterMap.mp hp
  simp only [Query.relatedRow?, Option.bind_eq_bind, Option.bind_eq_some_iff] at hfetch
  obtain ⟨f, hf, relation, hrelation, related, hrelated, hrow⟩ := hfetch
  have hreference : f.isReference = true := by rw [Field.isReference, hrelation]; rfl
  exact stored_embeddedRow hkeys halias hs (Schema.field?_mem hf) hreference
    (Registry.schema?_mem hrelated) hrow

end Clauses

structure Clauses.Stored (tables : List Table) (c : Clauses) : Prop where
  projection : ∀ p ∈ c.projection, EntityStore.Stored tables p.mentions
  joins : ∀ j ∈ c.joins, EntityStore.Stored tables j.mentions
  conditions : ∀ p ∈ c.conditions, EntityStore.Stored tables p.mentions
  order : ∀ o ∈ c.order, EntityStore.Stored tables o.expression.mentions

section Selections

variable {r : Registry} {d : Dialect}

theorem Clauses.stored_empty (tables : List Table) : Clauses.Stored tables {} where
  projection := fun _ h => absurd h List.not_mem_nil
  joins := fun _ h => absurd h List.not_mem_nil
  conditions := fun _ h => absurd h List.not_mem_nil
  order := fun _ h => absurd h List.not_mem_nil

theorem Clauses.Stored.append {tables : List Table} {a b : Clauses} (ha : a.Stored tables)
    (hb : b.Stored tables) : (a.append b).Stored tables where
  projection := List.forall_mem_append.mpr ⟨ha.projection, hb.projection⟩
  joins := List.forall_mem_append.mpr ⟨ha.joins, hb.joins⟩
  conditions := List.forall_mem_append.mpr ⟨ha.conditions, hb.conditions⟩
  order := List.forall_mem_append.mpr ⟨ha.order, hb.order⟩

variable (hkeys : r.HoldsKeys) (halias : r.AvoidsAliases)

include hkeys halias

theorem stored_ownClauses {s : Schema} (hs : s ∈ r.schemas) {root : Bool} {o : ReadOptions}
    {condition : Option Condition} {own : Clauses}
    (h : Query.ownClauses r s root o condition = .ok own) : own.Stored (r.tables d) := by
  obtain ⟨rows, hrows, hown⟩ := bind_eq_ok.mp h
  cases hown
  refine ⟨List.forall_mem_append.mpr ⟨stored_ownProjection hkeys halias hs root o,
    stored_embeddedRows hkeys halias hs hrows⟩, fun _ hj => absurd hj List.not_mem_nil, ?_, ?_⟩
  · intro p hp
    obtain ⟨c, -, hc⟩ := Option.bind_eq_some_iff.mp (Option.mem_toList.mp hp)
    exact stored_condition hkeys halias c s.name p hc
  · intro o ho
    obtain ⟨by_, -, hby⟩ := List.mem_filterMap.mp ho
    obtain ⟨e, he, rfl⟩ := Option.map_eq_some_iff.mp hby
    exact stored_fieldExpression hkeys halias he

omit halias in
theorem stored_joinedClauses {joins : List (Join Query)}
    (hjoins : ∀ j ∈ joins, ∀ s ∈ r.schemas, ∀ (root : Bool) (c : Clauses),
      j.query.clausesOf r s root = .ok c → c.Stored (r.tables d))
    {s : Schema} (hs : s ∈ r.schemas) {joined : Clauses}
    (h : Query.joinedClauses r s joins = .ok joined) : joined.Stored (r.tables d) := by
  induction joins generalizing joined with
  | nil =>
    cases h
    exact Clauses.stored_empty _
  | cons j rest ih =>
    have hj := hjoins j (List.mem_cons_self ..)
    obtain ⟨kind, field, query⟩ := j
    rw [Query.joinedClauses, Query.clausesOfJoin] at h
    simp only [bind_eq_ok] at h
    obtain ⟨first, hfirst, others, hothers, hclauses⟩ := h
    cases hclauses
    refine Clauses.Stored.append ?_ (ih (fun x hx => hjoins x (List.mem_cons_of_mem _ hx)) hothers)
    split at hfirst
    · cases hfirst
      exact Clauses.stored_empty _
    · next t clause hjoin =>
      simp only [bind_eq_ok] at hfirst
      obtain ⟨nested, hnested, hfirst⟩ := hfirst
      cases hfirst
      have hclause : Clauses.Stored (r.tables d) { joins := [clause] } :=
        { Clauses.stored_empty _ with
          joins := List.forall_mem_singleton.mpr (stored_joinClause hkeys hs hjoin) }
      have ht := Registry.schema?_mem (Query.schema?_of_joinClause? hjoin)
      exact hclause.append (hj t ht false nested hnested)

theorem stored_clausesOf (q : Query) : ∀ s ∈ r.schemas, ∀ (root : Bool) (c : Clauses),
    q.clausesOf r s root = .ok c → c.Stored (r.tables d) := by
  induction q using Query.induction with
  | step options model condition joins ih =>
    intro s hs root c h
    rw [Query.clausesOf] at h
    simp only [bind_eq_ok] at h
    obtain ⟨own, hown, joined, hjoined, hclauses⟩ := h
    cases hclauses
    exact (stored_ownClauses hkeys halias hs hown).append
      (stored_joinedClauses hkeys ih hs hjoined)

/-- The clauses of a query fit, and its table is that of a model. -/
theorem stored_selection {q : Query} {selected : Selection} (h : q.selection r = .ok selected) :
    selected.clauses.Stored (r.tables d) ∧ ∃ s ∈ r.schemas, selected.table = s.name := by
  simp only [Query.selection, bind_eq_ok, Registry.require_eq_ok] at h
  obtain ⟨s, hs, clauses, hclauses, hselected⟩ := h
  cases hselected
  have hmem := Registry.schema?_mem hs
  exact ⟨stored_clausesOf hkeys halias q s hmem true clauses hclauses, s, hmem,
    (Registry.schema?_name hs).symm⟩

end Selections

section Statements

variable {tables : List Table} {s : Selection} {table column : String}

theorem Projected.mentions_no_table (p : Projected) : p.mentions.any Mention.isTable = false := by
  cases p with
  | column source name => rfl
  | named e name =>
    rw [mentions, List.any_append, Mention.no_table_of_values e.mentions_values]
    rfl
  | embedded row => rfl

/-- The tables of a selection behind what is projected, which names none. -/
theorem Selection.tablesOf_own {before others : List Mention}
    (hbefore : before.any Mention.isTable = false) (hothers : ∀ name, .label name ∉ others) :
    OwnNames [tablesOf (before ++ .table s.table :: (s.filterMentions ++ others))] := by
  rw [tablesOf_append hbefore]
  refine ownNames_of_scope (EntityStore.tablesOf_own fun name hname => ?_)
  simp only [filterMentions, List.mem_cons, reduceCtorEq, false_or, List.mem_append,
    List.mem_flatMap] at hname
  rcases hname with (⟨j, -, hj⟩ | ⟨p, -, hp⟩) | hother
  · simp [JoinClause.mentions] at hj
  · exact label_not_mem_values p.mentions_values name hp
  · exact hothers name hother

theorem Selection.stored_filters (h : s.clauses.Stored tables) :
    Stored tables s.filterMentions :=
  (stored_flatMap h.joins).append (stored_flatMap h.conditions)

/-- The statement that reads the rows of a query fits. -/
theorem Selection.fits_select (h : s.clauses.Stored tables)
    (htable : Provides tables s.table column) :
    Mention.Fits tables [] (.scope s.selectMentions) := by
  have hbefore : (s.clauses.projection.flatMap Projected.mentions).any Mention.isTable = false := by
    rw [List.any_flatMap, List.any_eq_false]
    intro p _
    simp [p.mentions_no_table]
  have hothers : ∀ name,
      .label name ∉ s.clauses.order.flatMap fun o => o.expression.mentions := by
    intro name hname
    obtain ⟨o, -, ho⟩ := List.mem_flatMap.mp hname
    exact label_not_mem_values o.expression.mentions_values name ho
  have hnames := s.tablesOf_own hbefore hothers
  have hmentions : s.selectMentions = s.clauses.projection.flatMap Projected.mentions ++
      .table s.table ::
        (s.filterMentions ++ s.clauses.order.flatMap fun o => o.expression.mentions) := by
    simp [selectMentions]
  rw [hmentions]
  refine .scope fun m hm => ?_
  simp only [List.mem_append, List.mem_cons] at hm
  rcases hm with hprojected | rfl | hfilter | horder
  · exact stored_flatMap h.projection _ hnames m hprojected
  · exact fits_table htable
  · exact s.stored_filters h _ hnames m hfilter
  · exact stored_flatMap h.order _ hnames m horder

/-- The statement that counts the rows of a query fits. -/
theorem Selection.fits_count (h : s.clauses.Stored tables)
    (htable : Provides tables s.table column) :
    Mention.Fits tables [] (.scope s.countMentions) := by
  have hnames : OwnNames [tablesOf ([.label totalColumn] ++ .table s.table ::
      (s.filterMentions ++ []))] :=
    s.tablesOf_own rfl fun _ hname => absurd hname List.not_mem_nil
  rw [List.append_nil] at hnames
  refine .scope fun m hm => ?_
  simp only [countMentions, List.mem_append, List.mem_cons, List.not_mem_nil, or_false] at hm
  rcases hm with (rfl | rfl) | hfilter
  · exact .label _
  · exact fits_table htable
  · exact s.stored_filters h _ hnames m hfilter

end Statements

end EntityStore
