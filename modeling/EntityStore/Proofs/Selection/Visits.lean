import EntityStore.Proofs.Selection.Cleaning

/-!
The queries that are read together: the root query and, depth first, those that its joins reach.
The clauses of a selection are theirs put together in this order, and a join leads to each of them
from one that is read before it.
-/
namespace EntityStore

/-- A query that is read, with its condition and with the join that leads to it. -/
structure Visit extends Source where
  condition : Option Condition
  join : Option JoinClause

namespace Clauses

def concat : List Clauses → Clauses
  | [] => {}
  | c :: rest => c.append (concat rest)

section Concat

variable (cs others : List Clauses)

@[simp] theorem concat_projection : (concat cs).projection = cs.flatMap projection := by
  induction cs with
  | nil => rfl
  | cons c rest ih => simp [concat, append, ih]

@[simp] theorem concat_joins : (concat cs).joins = cs.flatMap joins := by
  induction cs with
  | nil => rfl
  | cons c rest ih => simp [concat, append, ih]

@[simp] theorem concat_conditions : (concat cs).conditions = cs.flatMap conditions := by
  induction cs with
  | nil => rfl
  | cons c rest ih => simp [concat, append, ih]

@[simp] theorem concat_order : (concat cs).order = cs.flatMap order := by
  induction cs with
  | nil => rfl
  | cons c rest ih => simp [concat, append, ih]

theorem append_assoc (a b c : Clauses) : (a.append b).append c = a.append (b.append c) := by
  simp [append]

theorem concat_append : concat (cs ++ others) = (concat cs).append (concat others) := by
  induction cs with
  | nil => exact (Query.append_empty_left _).symm
  | cons c rest ih => rw [List.cons_append, concat, concat, ih, append_assoc]

end Concat

end Clauses

def Visit.clauses (r : Registry) (v : Visit) : Clauses where
  projection := v.projection r
  joins := v.join.toList
  conditions := (v.condition.bind (Condition.resolve? r v.schema.name)).toList
  order := v.options.orderBy.filterMap (Query.orderClause? r v.schema.name)

namespace Query

mutual

def visits (r : Registry) (s : Schema) (root : Bool) (join : Option JoinClause) :
    Query → List Visit
  | ⟨options, _, condition, joins⟩ =>
    ⟨⟨s, root, options⟩, condition, join⟩ :: joinedVisits r s joins

def joinedVisits (r : Registry) (s : Schema) : List (Join Query) → List Visit
  | [] => []
  | j :: rest => visitsOfJoin r s j ++ joinedVisits r s rest

def visitsOfJoin (r : Registry) (s : Schema) : Join Query → List Visit
  | ⟨kind, field, query⟩ =>
    match joinClause? r s kind field query.model with
    | none => []
    | some (t, clause) => visits r t false (some clause) query

end

variable {r : Registry} {s : Schema}

/-- The root query comes first. -/
theorem visits_eq (q : Query) (r : Registry) (s : Schema) (root : Bool)
    (join : Option JoinClause) : q.visits r s root join =
      ⟨⟨s, root, q.options⟩, q.condition, join⟩ :: joinedVisits r s q.joins := by
  cases q
  rw [visits]

section Clauses

theorem clauses_of_ownClauses {root : Bool} {o : ReadOptions} {condition : Option Condition}
    {own : Clauses} (h : ownClauses r s root o condition = .ok own) (join : Option JoinClause) :
    Visit.clauses r ⟨⟨s, root, o⟩, condition, join⟩ =
      Clauses.append { joins := join.toList } own := by
  have hprojection := ownClauses_projection h
  obtain ⟨rows, -, hown⟩ := bind_eq_ok.mp h
  cases hown
  simp only [Visit.clauses, Clauses.append, List.nil_append, List.append_nil]
  rw [← hprojection]

theorem joinedClauses_eq_concat {joins : List (Join Query)}
    (hjoins : ∀ j ∈ joins, ∀ (s : Schema) (root : Bool) (join : Option JoinClause) (c : Clauses),
      j.query.clausesOf r s root = .ok c → Clauses.append { joins := join.toList } c =
        Clauses.concat ((j.query.visits r s root join).map (Visit.clauses r)))
    {joined : Clauses} (h : joinedClauses r s joins = .ok joined) :
    joined = Clauses.concat ((joinedVisits r s joins).map (Visit.clauses r)) := by
  induction joins generalizing joined with
  | nil =>
    cases h
    rfl
  | cons j rest ih =>
    rw [joinedClauses] at h
    simp only [bind_eq_ok] at h
    obtain ⟨first, hfirst, others, hothers, hjoined⟩ := h
    cases hjoined
    have hrest := ih (fun x hx => hjoins x (List.mem_cons_of_mem _ hx)) hothers
    have hj := hjoins j (List.mem_cons_self ..)
    obtain ⟨kind, field, query⟩ := j
    rw [clausesOfJoin] at hfirst
    rw [joinedVisits, visitsOfJoin, List.map_append, Clauses.concat_append, ← hrest]
    cases hjoin : joinClause? r s kind field query.model with
    | none =>
      simp only [hjoin] at hfirst ⊢
      cases hfirst
      rfl
    | some kept =>
      obtain ⟨t, clause⟩ := kept
      simp only [hjoin, bind_eq_ok] at hfirst ⊢
      obtain ⟨nested, hnested, hclauses⟩ := hfirst
      cases hclauses
      rw [← hj t false (some clause) nested hnested]
      rfl

/-- The clauses of a query behind the join that leads to it are those of the queries that are read
with it. -/
theorem clausesOf_eq_concat (q : Query) : ∀ (s : Schema) (root : Bool)
    (join : Option JoinClause) (c : Clauses), q.clausesOf r s root = .ok c →
      Clauses.append { joins := join.toList } c =
        Clauses.concat ((q.visits r s root join).map (Visit.clauses r)) := by
  induction q using Query.induction with
  | step options model condition joins ih =>
    intro s root join c h
    rw [clausesOf] at h
    simp only [bind_eq_ok] at h
    obtain ⟨own, hown, joined, hjoined, hclauses⟩ := h
    cases hclauses
    rw [visits, List.map_cons, Clauses.concat, ← joinedClauses_eq_concat ih hjoined,
      clauses_of_ownClauses hown, Clauses.append_assoc]

/-- A selection is that of the root query's model, with the clauses of all queries that are read. -/
theorem selection_eq_concat {q : Query} {selected : Selection}
    (h : q.selection r = .ok selected) : ∃ s, r.schema? q.model = some s ∧
      selected.table = s.name ∧
      selected.clauses = Clauses.concat ((q.visits r s true none).map (Visit.clauses r)) := by
  obtain ⟨s, clauses, hs, hclauses, rfl⟩ := selection_eq_ok.mp h
  refine ⟨s, hs, (Registry.schema?_name hs).symm, ?_⟩
  rw [← clausesOf_eq_concat q s true none clauses hclauses]
  exact (append_empty_left clauses).symm

end Clauses

section Joins

/-- The parts of a join that is kept. -/
theorem joinClause?_eq_some {kind : JoinKind} {field target : String} {t : Schema}
    {clause : JoinClause} (h : joinClause? r s kind field target = some (t, clause)) :
    clause.source = s.name ∧ clause.target = t.name := by
  have ht := Registry.schema?_name (schema?_of_joinClause? h)
  simp only [joinClause?, Option.bind_eq_bind, Option.bind_eq_some_iff] at h
  obtain ⟨u, hu, f, hf, hkept⟩ := h
  split at hkept
  · cases hkept
    exact ⟨rfl, ht.symm⟩
  · cases hkept

/-- Each query that is reached is reached by a join from one that is read. -/
theorem exists_join_of_mem_joinedVisits (q : Query) : ∀ (s : Schema),
    ∀ v ∈ joinedVisits r s q.joins, ∃ j, v.join = some j ∧ j.target = v.schema.name ∧
      (j.source = s.name ∨ ∃ u ∈ joinedVisits r s q.joins, j.source = u.schema.name) := by
  induction q using Query.induction with
  | step options model condition joins ih =>
    intro s v hv
    dsimp only at hv ⊢
    induction joins with
    | nil => cases hv
    | cons j rest ihrest =>
      rw [joinedVisits] at hv ⊢
      rcases List.mem_append.mp hv with hfirst | hothers
      · have hj := ih j (List.mem_cons_self ..)
        obtain ⟨kind, field, query⟩ := j
        rw [visitsOfJoin] at hfirst ⊢
        split at hfirst
        · cases hfirst
        · next t clause hjoin =>
          obtain ⟨hsource, htarget⟩ := joinClause?_eq_some hjoin
          rw [visits_eq] at hfirst ⊢
          rcases List.mem_cons.mp hfirst with rfl | hnested
          · exact ⟨clause, rfl, htarget, .inl hsource⟩
          · obtain ⟨j, hvj, hjt, hfrom⟩ := hj t v hnested
            refine ⟨j, hvj, hjt, .inr ?_⟩
            rcases hfrom with hhere | ⟨u, hu, hsource⟩
            · exact ⟨_, List.mem_append_left _ (List.mem_cons_self ..), hhere⟩
            · exact ⟨u, List.mem_append_left _ (List.mem_cons_of_mem _ hu), hsource⟩
      · obtain ⟨j, hvj, hjt, hfrom⟩ :=
          ihrest (fun x hx => ih x (List.mem_cons_of_mem _ hx)) hothers
        refine ⟨j, hvj, hjt, hfrom.imp id fun ⟨u, hu, hsource⟩ => ?_⟩
        exact ⟨u, List.mem_append_right _ hu, hsource⟩

end Joins

end Query

end EntityStore
