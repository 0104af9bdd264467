import EntityStore.Proofs.Selection.Scope
import EntityStore.Proofs.Selection.Visits

/-!
The joins of a query that fit, at every depth, each in front of those of the query that it leads to.
A selection joins one table for each of them, in this order and by a column of a table that stands
before it. In the same order come the columns, conditions and orders of the queries that they lead
to, behind those of the root query.
-/
namespace EntityStore

open Reading

structure KeptJoin where
  outer : Query
  join : Join Query

namespace Query

def fits (r : Registry) (q : Query) (j : Join Query) : Bool :=
  joinFits r q.model j.field j.query.model

/-- The queries to which joins that fit lead from a query, itself among them. -/
inductive Reached (r : Registry) (q : Query) : Query → Prop
  | root : Reached r q q
  | join {p : Query} {j : Join Query} : Reached r q p → j ∈ p.joins → p.fits r j = true →
    Reached r q j.query

mutual

def keptJoins (r : Registry) : Query → List KeptJoin
  | ⟨options, model, condition, joins⟩ => keptAmong r ⟨options, model, condition, joins⟩ joins

def keptAmong (r : Registry) (outer : Query) : List (Join Query) → List KeptJoin
  | [] => []
  | j :: rest => keptFrom r outer j ++ keptAmong r outer rest

def keptFrom (r : Registry) (outer : Query) : Join Query → List KeptJoin
  | ⟨kind, field, query⟩ =>
    if outer.fits r ⟨kind, field, query⟩ then ⟨outer, ⟨kind, field, query⟩⟩ :: keptJoins r query
    else []

end

section KeptJoins

variable {r : Registry} {q p : Query} {j : Join Query} {k : KeptJoin}

theorem keptFrom_eq (r : Registry) (q : Query) (j : Join Query) :
    keptFrom r q j = if q.fits r j then ⟨q, j⟩ :: j.query.keptJoins r else [] := by
  cases j
  rw [keptFrom]

theorem keptAmong_eq (r : Registry) (q : Query) (joins : List (Join Query)) :
    keptAmong r q joins =
      (joins.filter (q.fits r)).flatMap fun j => ⟨q, j⟩ :: j.query.keptJoins r := by
  induction joins with
  | nil => rfl
  | cons j rest ih =>
    rw [keptAmong, keptFrom_eq, ih]
    cases hfits : q.fits r j <;> simp [hfits]

/-- Each join that fits comes in front of those of the query that it leads to, and both before
those of the joins behind it. -/
theorem keptJoins_eq (r : Registry) (q : Query) : q.keptJoins r =
    (q.joins.filter (q.fits r)).flatMap fun j => ⟨q, j⟩ :: j.query.keptJoins r := by
  rw [← keptAmong_eq]
  cases q
  rw [keptJoins]

theorem Reached.of_join (hj : j ∈ q.joins) (hfits : q.fits r j = true)
    (h : Reached r j.query p) : Reached r q p := by
  induction h with
  | root => exact .join .root hj hfits
  | join _ hmem hnested ih => exact .join ih hmem hnested

theorem reached_of_mem_keptJoins (q : Query) : ∀ k ∈ q.keptJoins r,
    Reached r q k.outer ∧ k.join ∈ k.outer.joins ∧ k.outer.fits r k.join = true := by
  induction q using Query.induction with
  | step options model condition joins ih =>
    intro k hk
    rw [keptJoins_eq] at hk
    obtain ⟨j, hj, hk⟩ := List.mem_flatMap.mp hk
    obtain ⟨hj, hfits⟩ := List.mem_filter.mp hj
    rcases List.mem_cons.mp hk with rfl | hnested
    · exact ⟨.root, hj, hfits⟩
    · exact (ih j hj k hnested).imp (Reached.of_join hj hfits) id

theorem Reached.keptJoins_subset (h : Reached r q p) : p.keptJoins r ⊆ q.keptJoins r := by
  induction h with
  | root => exact fun _ hk => hk
  | @join p j _ hj hfits ih =>
    intro k hk
    apply ih
    rw [keptJoins_eq]
    have hkept : j ∈ p.joins.filter (p.fits r) := List.mem_filter.mpr ⟨hj, hfits⟩
    exact List.mem_flatMap.mpr ⟨j, hkept, List.mem_cons_of_mem _ hk⟩

/-- The joins that are kept are those that fit, of all queries that are reached. -/
theorem mem_keptJoins : k ∈ q.keptJoins r ↔
    Reached r q k.outer ∧ k.join ∈ k.outer.joins ∧ k.outer.fits r k.join = true := by
  constructor
  · exact reached_of_mem_keptJoins q k
  · rintro ⟨hreached, hmem, hfits⟩
    apply hreached.keptJoins_subset
    rw [keptJoins_eq]
    have hkept : k.join ∈ k.outer.joins.filter (k.outer.fits r) :=
      List.mem_filter.mpr ⟨hmem, hfits⟩
    exact List.mem_flatMap.mpr ⟨k.join, hkept, List.mem_cons_self ..⟩

end KeptJoins

/-- Every join belongs to the root query, or to one to which a join before it leads. -/
def LedFrom (q : Query) (ks : List KeptJoin) : Prop :=
  ∀ before k after, ks = before ++ k :: after →
    k.outer = q ∨ ∃ e ∈ before, e.join.query = k.outer

section LedFrom

variable {r : Registry} {q : Query} {ks others : List KeptJoin}

theorem ledFrom_nil (q : Query) : LedFrom q [] :=
  fun _ _ _ h => absurd h (by simp)

theorem LedFrom.append (hks : LedFrom q ks) (hothers : LedFrom q others) :
    LedFrom q (ks ++ others) := by
  intro before k after h
  rcases List.append_eq_append_iff.mp h with ⟨front, rfl, hfront⟩ | ⟨front, hfront, hk⟩
  · refine (hothers front k after hfront).imp id fun ⟨e, he, hleads⟩ => ?_
    exact ⟨e, List.mem_append_right _ he, hleads⟩
  · cases front with
    | nil =>
      rw [List.append_nil] at hfront
      refine (hothers [] k after (by simpa using hk.symm)).imp id fun ⟨e, he, _⟩ => ?_
      cases he
    | cons first rest =>
      obtain ⟨rfl, -⟩ := List.cons.inj hk
      exact hks before k rest hfront

/-- The joins of a query behind the join that leads to it. -/
theorem LedFrom.cons {j : Join Query} (h : LedFrom j.query ks) : LedFrom q (⟨q, j⟩ :: ks) := by
  intro before k after heq
  cases before with
  | nil =>
    obtain ⟨rfl, -⟩ := List.cons.inj heq
    exact .inl rfl
  | cons first rest =>
    obtain ⟨rfl, hks⟩ := List.cons.inj heq
    rcases h rest k after hks with houter | ⟨e, he, hleads⟩
    · exact .inr ⟨_, List.mem_cons_self .., houter.symm⟩
    · exact .inr ⟨e, List.mem_cons_of_mem _ he, hleads⟩

theorem ledFrom_keptJoins (r : Registry) (q : Query) : LedFrom q (q.keptJoins r) := by
  induction q using Query.induction with
  | step options model condition joins ih =>
    have hall : ∀ q : Query, ∀ js : List (Join Query),
        (∀ j ∈ js, LedFrom j.query (j.query.keptJoins r)) →
          LedFrom q (js.flatMap fun j => ⟨q, j⟩ :: j.query.keptJoins r) := by
      intro q js hjs
      induction js with
      | nil => exact ledFrom_nil q
      | cons j rest ihrest =>
        obtain ⟨hj, hrest⟩ := List.forall_mem_cons.mp hjs
        rw [List.flatMap_cons]
        exact hj.cons.append (ihrest hrest)
    rw [keptJoins_eq]
    exact hall _ _ fun j hj => ih j (List.mem_filter.mp hj).1

end LedFrom

end Query

def KeptJoin.clause (r : Registry) (k : KeptJoin) : JoinClause where
  kind := k.join.kind
  target := k.join.query.model
  key := r.primaryKey k.join.query.model
  source := k.outer.model
  field := k.join.field

def KeptJoin.text (r : Registry) (d : Dialect) (k : KeptJoin) : String :=
  k.join.kind.keyword ++ " JOIN " ++ d.quote k.join.query.model ++ " ON (" ++
    d.qualified k.outer.model k.join.field ++ " = " ++
    d.qualified k.join.query.model (r.primaryKey k.join.query.model) ++ ")"

structure Visit.ReachedBy (r : Registry) (v : Visit) (k : KeptJoin) : Prop where
  schema : r.schema? k.join.query.model = some v.schema
  inner : v.root = false
  options : v.options = k.join.query.options
  condition : v.condition = k.join.query.condition
  join : v.join = some (k.clause r)

namespace Query

variable {r : Registry} {s : Schema}

def ownColumns (r : Registry) (root : Bool) (q : Query) : List Projected :=
  (r.schema? q.model).elim [] fun s => Source.projection r ⟨s, root, q.options⟩

def ownConditions (r : Registry) (q : Query) : List Predicate :=
  (q.condition.bind (Condition.resolve? r q.model)).toList

def ownOrders (r : Registry) (q : Query) : List OrderClause :=
  q.options.orderBy.filterMap (orderClause? r q.model)

/-- The clause of a join that fits. -/
theorem joinClause?_of_fits {q : Query} {j : Join Query} (hs : r.schema? q.model = some s) :
    (q.fits r j = false ∧ joinClause? r s j.kind j.field j.query.model = none) ∨
    ∃ t, q.fits r j = true ∧ r.schema? j.query.model = some t ∧
      joinClause? r s j.kind j.field j.query.model = some (t, KeptJoin.clause r ⟨q, j⟩) := by
  have hfits := isSome_joinClause? hs j.kind j.field j.query.model
  cases hjoin : joinClause? r s j.kind j.field j.query.model with
  | none =>
    rw [hjoin] at hfits
    exact .inl ⟨hfits.symm, rfl⟩
  | some kept =>
    obtain ⟨t, clause⟩ := kept
    rw [hjoin] at hfits
    have ht := schema?_of_joinClause? hjoin
    refine .inr ⟨t, hfits.symm, ht, ?_⟩
    simp only [joinClause?, Option.bind_eq_bind, Option.bind_eq_some_iff] at hjoin
    obtain ⟨u, hu, f, -, hkept⟩ := hjoin
    split at hkept
    · cases hkept
      simp [KeptJoin.clause, Registry.primaryKey, ht, Registry.schema?_name hs]
    · cases hkept

/-- The queries that are read behind the root query are those that the kept joins lead to. -/
theorem joinedVisits_reachedBy (q : Query) : ∀ s, r.schema? q.model = some s →
    List.Forall₂ (Visit.ReachedBy r) (joinedVisits r s q.joins) (q.keptJoins r) := by
  induction q using Query.induction with
  | step options model condition joins ih =>
    intro s hs
    generalize hq : (⟨options, model, condition, joins⟩ : Query) = q at hs
    have hall : ∀ js ⊆ joins,
        List.Forall₂ (Visit.ReachedBy r) (joinedVisits r s js) (keptAmong r q js) := by
      intro js hjs
      induction js with
      | nil => exact .nil
      | cons j rest ihrest =>
        obtain ⟨hj, hrest⟩ := List.cons_subset.mp hjs
        rw [joinedVisits, keptAmong, keptFrom_eq]
        refine List.rel_append ?_ (ihrest hrest)
        have hnested := ih j hj
        have hclause := @joinClause?_of_fits r s q j hs
        obtain ⟨kind, field, query⟩ := j
        rw [visitsOfJoin]
        rcases hclause with ⟨hfits, hnone⟩ | ⟨t, hfits, ht, hsome⟩
        · simp only [hfits, hnone, Bool.false_eq_true, if_false]
          exact .nil
        · simp only [hfits, hsome, visits_eq, if_true]
          exact .cons ⟨ht, rfl, rfl, rfl, rfl⟩ (hnested t ht)
    subst hq
    rw [keptJoins]
    exact hall joins (List.Subset.refl joins)

end Query

namespace Visit.ReachedBy

variable {r : Registry} {v : Visit} {k : KeptJoin}

theorem projection_eq (h : v.ReachedBy r k) :
    (v.clauses r).projection = k.join.query.ownColumns r false := by
  rw [Query.ownColumns, h.schema, Option.elim_some, ← h.inner, ← h.options]
  rfl

theorem conditions_eq (h : v.ReachedBy r k) :
    (v.clauses r).conditions = k.join.query.ownConditions r := by
  rw [Query.ownConditions, ← h.condition, ← Registry.schema?_name h.schema]
  rfl

theorem order_eq (h : v.ReachedBy r k) : (v.clauses r).order = k.join.query.ownOrders r := by
  rw [Query.ownOrders, ← h.options, ← Registry.schema?_name h.schema]
  rfl

theorem joins_eq (h : v.ReachedBy r k) : (v.clauses r).joins = [k.clause r] := by
  rw [Visit.clauses, h.join, Option.toList_some]

end Visit.ReachedBy

theorem flatMap_eq_of_forall₂ {α β γ : Type} {R : α → β → Prop} {f : α → List γ} {g : β → List γ}
    {xs : List α} {ys : List β} (h : List.Forall₂ R xs ys) (heq : ∀ x y, R x y → f x = g y) :
    xs.flatMap f = ys.flatMap g := by
  induction h with
  | nil => rfl
  | cons hxy _ ih => rw [List.flatMap_cons, List.flatMap_cons, heq _ _ hxy, ih]

/-- The clauses of a selection are those of the root query and, behind them, those of the queries
that its kept joins lead to. -/
theorem Query.selection_clauses_eq {r : Registry} {q : Query} {selected : Selection}
    (h : q.selection r = .ok selected) :
    selected.clauses.joins = (q.keptJoins r).map (KeptJoin.clause r) ∧
    selected.clauses.projection = q.ownColumns r true ++
      (q.keptJoins r).flatMap (fun k => k.join.query.ownColumns r false) ∧
    selected.clauses.conditions = q.ownConditions r ++
      (q.keptJoins r).flatMap (fun k => k.join.query.ownConditions r) ∧
    selected.clauses.order = q.ownOrders r ++
      (q.keptJoins r).flatMap (fun k => k.join.query.ownOrders r) := by
  obtain ⟨s, hs, -, hclauses⟩ := Query.selection_eq_concat h
  have hreached := q.joinedVisits_reachedBy s hs
  have hname := Registry.schema?_name hs
  rw [hclauses, visits_eq, List.map_cons, Clauses.concat]
  simp only [Clauses.append, Clauses.concat_joins, Clauses.concat_projection,
    Clauses.concat_conditions, Clauses.concat_order, List.flatMap_map]
  refine ⟨?_, ?_, ?_, ?_⟩
  · rw [flatMap_eq_of_forall₂ hreached fun _ _ hv => hv.joins_eq]
    exact (List.map_eq_flatMap ..).symm
  · rw [flatMap_eq_of_forall₂ hreached fun _ _ hv => hv.projection_eq]
    simp [Visit.clauses, ownColumns, hs]
  · rw [flatMap_eq_of_forall₂ hreached fun _ _ hv => hv.conditions_eq]
    simp [Visit.clauses, ownConditions, hname]
  · rw [flatMap_eq_of_forall₂ hreached fun _ _ hv => hv.order_eq]
    simp [Visit.clauses, ownOrders, hname]

/-- The text of the joins has one clause for each join that fits, of the queries that are reached,
depth first; its column is one of the root's table or of one that is joined before it. The columns,
conditions and orders of the queries that are joined follow those of the root in the same order. -/
theorem joins_in_order {r : Registry} {q : Query} {selected : Selection}
    (h : q.selection r = .ok selected) (d : Dialect) :
    (∀ k, k ∈ q.keptJoins r ↔
      q.Reached r k.outer ∧ k.join ∈ k.outer.joins ∧ k.outer.fits r k.join = true) ∧
    q.LedFrom (q.keptJoins r) ∧
    selected.joinSql d = Text.join " " ((q.keptJoins r).map (KeptJoin.text r d)) ∧
    mentions d (selected.joinSql d) = (q.keptJoins r).flatMap (fun k =>
      [.table k.join.query.model, .column (some k.outer.model) k.join.field,
        .column (some k.join.query.model) (r.primaryKey k.join.query.model)]) ∧
    selected.projectionSql d = Text.join ", " ((q.ownColumns r true ++
      (q.keptJoins r).flatMap fun k => k.join.query.ownColumns r false).map (Projected.sql d)) ∧
    selected.conditionSql d = Sql.join " AND " ((q.ownConditions r ++
      (q.keptJoins r).flatMap fun k => k.join.query.ownConditions r).map (Predicate.sql d)) ∧
    selected.orderSql d = Text.join ", " ((q.ownOrders r ++
      (q.keptJoins r).flatMap fun k => k.join.query.ownOrders r).map (OrderClause.sql d)) := by
  obtain ⟨hjoins, hprojection, hconditions, horder⟩ := Query.selection_clauses_eq h
  refine ⟨fun k => Query.mem_keptJoins, q.ledFrom_keptJoins r, ?_, ?_, ?_, ?_, ?_⟩
  · rw [Selection.joinSql, hjoins, List.map_map]
    rfl
  · rw [(selected.mentions_joinSql d).mentions_eq, hjoins, List.flatMap_map]
    rfl
  · rw [Selection.projectionSql, hprojection]
  · rw [Selection.conditionSql, hconditions]
  · rw [Selection.orderSql, horder]

namespace Sample

def team : Schema where
  name := "Team"
  fields := [{ name := "code", type := .integer, primary := true }]

def speaker : Schema where
  name := "Speaker"
  fields := [
    { name := "name", type := .string },
    .ofRelation "team" "Team" .oneToOne]

def lecture : Schema where
  name := "Lecture"
  fields := [
    { name := "title", type := .string, multilingual := true },
    .ofRelation "host" "Speaker" .oneToMany,
    .ofRelation "guest" "Speaker" .oneToOne]

def lectures : Registry := ⟨[lecture, team, speaker], rfl⟩

def lecturesOfTeams : Query :=
  let hosts := ((Query.ofModel "Speaker").join .full "team" (.ofModel "Team")).select ["name"]
  (((((Query.ofModel "Lecture").select ["id"]).join .inner "title" (.ofModel "Team")).join
    .inner "host" hosts).join .right "guest" (.ofModel "Library")).join
    .left "guest" ((Query.ofModel "Speaker").orderBy "name" true)

end Sample

open Sample in
theorem joins_in_order_of_lectures : ∃ selected, lecturesOfTeams.selection lectures = .ok selected ∧
    selected.joinSql .sqlite = Text.join " " [
      "INNER JOIN \"Speaker\" ON (\"Lecture\".\"host\" = \"Speaker\".\"id\")",
      "FULL OUTER JOIN \"Team\" ON (\"Speaker\".\"team\" = \"Team\".\"code\")",
      "LEFT JOIN \"Speaker\" ON (\"Lecture\".\"guest\" = \"Speaker\".\"id\")"] := by
  obtain ⟨-, -, htext, -⟩ := @joins_in_order lectures lecturesOfTeams _ rfl .sqlite
  exact ⟨_, rfl, htext⟩

end EntityStore
