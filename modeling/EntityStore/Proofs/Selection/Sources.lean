import EntityStore.Proofs.Checks
import EntityStore.Selection

/-!
Where the columns of a selection come from: the root query, and the queries that are reached from
it through joins that are kept. The projection is theirs put together, the root's first.
-/
namespace EntityStore

/-- What holds of a query when it holds of the queries joined to it holds of all queries. -/
@[elab_as_elim]
theorem Query.induction {motive : Query → Prop}
    (step : ∀ options model condition joins, (∀ j ∈ joins, motive j.query) →
      motive ⟨options, model, condition, joins⟩) (q : Query) : motive q :=
  @Query.rec motive (fun joins => ∀ j ∈ joins, motive j.query) (fun j => motive j.query) step
    (by simp) (fun _ _ hj hrest => List.forall_mem_cons.mpr ⟨hj, hrest⟩) (fun _ _ _ h => h) q

structure Source where
  schema : Schema
  root : Bool
  options : ReadOptions

namespace Query

mutual

def sources (r : Registry) (s : Schema) (root : Bool) : Query → List Source
  | ⟨options, _, _, joins⟩ => ⟨s, root, options⟩ :: joinedSources r s joins

def joinedSources (r : Registry) (s : Schema) : List (Join Query) → List Source
  | [] => []
  | j :: rest => sourcesOfJoin r s j ++ joinedSources r s rest

def sourcesOfJoin (r : Registry) (s : Schema) : Join Query → List Source
  | ⟨kind, field, query⟩ =>
    match joinClause? r s kind field query.model with
    | none => []
    | some (t, _) => sources r t false query

end

def relatedRow? (r : Registry) (s : Schema) (fetch : RelationFetch) : Option Projected := do
  let f ← s.field? fetch.name
  let relation ← f.kind.reference?
  let related ← r.schema? relation.model
  embeddedRow? s f fetch related

end Query

namespace Source

open Query

def rows (r : Registry) (src : Source) : List Projected :=
  src.options.relations.filterMap (relatedRow? r src.schema)

def projection (r : Registry) (src : Source) : List Projected :=
  ownProjection src.schema src.root src.options ++ src.rows r

end Source

namespace Query

variable {r : Registry} {s : Schema}

theorem field?_name {n : String} {f : Field} (h : s.field? n = some f) : f.name = n := by
  simpa using List.find?_some h

/-- A row is read along under the name of its directive, which is a relation that points to it. -/
theorem relatedRow?_eq_some {fetch : RelationFetch} {p : Projected}
    (h : relatedRow? r s fetch = some p) :
    (∃ row, p = .embedded row) ∧ p.name = fetch.name ∧ isEmbedded s fetch.name = true := by
  simp only [relatedRow?, Option.bind_eq_bind, Option.bind_eq_some_iff] at h
  obtain ⟨f, hf, relation, hrelation, related, hrelated, hrow⟩ := h
  unfold embeddedRow? at hrow
  dsimp only at hrow
  split at hrow
  · cases hrow
  · cases hrow
    refine ⟨⟨_, rfl⟩, field?_name hf, ?_⟩
    simp [isEmbedded, hf, Field.isReference, hrelation]

theorem embeddedRows_eq {relations : List RelationFetch} {rows : List Projected}
    (h : embeddedRows r s relations = .ok rows) : rows = relations.filterMap (relatedRow? r s) := by
  induction relations generalizing rows with
  | nil =>
    cases h
    rfl
  | cons fetch rest ih =>
    rw [embeddedRows] at h
    cases hf : s.field? fetch.name with
    | none =>
      rw [hf] at h
      cases h
    | some f =>
      rw [hf] at h
      cases hkind : f.kind.reference? with
      | none =>
        simp only [hkind, bind_eq_ok, pure, Except.pure, Except.ok.injEq] at h
        obtain ⟨here, rfl, others, hothers, rfl⟩ := h
        simp [relatedRow?, hf, hkind, ih hothers]
      | some relation =>
        simp only [hkind, bind_eq_ok, pure, Except.pure, Except.ok.injEq,
          Registry.require_eq_ok] at h
        obtain ⟨related, hrelated, here, rfl, others, hothers, rfl⟩ := h
        simp only [List.filterMap_cons, relatedRow?, hf, hkind, hrelated, ih hothers,
          Option.bind_eq_bind, Option.bind_some]
        cases embeddedRow? s f fetch related <;> rfl

theorem ownClauses_projection {root : Bool} {o : ReadOptions} {condition : Option Condition}
    {own : Clauses} (h : ownClauses r s root o condition = .ok own) :
    own.projection = Source.projection r ⟨s, root, o⟩ := by
  obtain ⟨rows, hrows, hown⟩ := bind_eq_ok.mp h
  cases hown
  rw [Source.projection, Source.rows, ← embeddedRows_eq hrows]

theorem joinedClauses_projection {joins : List (Join Query)}
    (hjoins : ∀ j ∈ joins, ∀ (s : Schema) (root : Bool) (clauses : Clauses),
      j.query.clausesOf r s root = .ok clauses →
        clauses.projection = (j.query.sources r s root).flatMap (Source.projection r))
    {clauses : Clauses} (h : joinedClauses r s joins = .ok clauses) :
    clauses.projection = (joinedSources r s joins).flatMap (Source.projection r) := by
  induction joins generalizing clauses with
  | nil =>
    cases h
    rfl
  | cons j rest ih =>
    rw [joinedClauses] at h
    simp only [bind_eq_ok] at h
    obtain ⟨first, hfirst, others, hothers, hclauses⟩ := h
    cases hclauses
    have hrest := ih (fun x hx => hjoins x (List.mem_cons_of_mem _ hx)) hothers
    have hj := hjoins j (List.mem_cons_self ..)
    obtain ⟨kind, field, query⟩ := j
    rw [clausesOfJoin] at hfirst
    rw [joinedSources, sourcesOfJoin, List.flatMap_append, ← hrest]
    cases hjoin : joinClause? r s kind field query.model with
    | none =>
      simp only [hjoin] at hfirst ⊢
      cases hfirst
      rfl
    | some kept =>
      obtain ⟨t, clause⟩ := kept
      simp only [hjoin, bind_eq_ok] at hfirst ⊢
      obtain ⟨nested, hnested, hclause⟩ := hfirst
      cases hclause
      rw [← hj t false nested hnested]
      rfl

/-- The projection of a query is that of its sources. -/
theorem clausesOf_projection (q : Query) : ∀ (s : Schema) (root : Bool) (clauses : Clauses),
    q.clausesOf r s root = .ok clauses →
      clauses.projection = (q.sources r s root).flatMap (Source.projection r) := by
  induction q using Query.induction with
  | step options model condition joins ih =>
    intro s root clauses h
    rw [clausesOf] at h
    simp only [bind_eq_ok] at h
    obtain ⟨own, hown, joined, hjoined, hclauses⟩ := h
    cases hclauses
    rw [sources, List.flatMap_cons, ← joinedClauses_projection ih hjoined,
      ← ownClauses_projection hown]
    rfl

def reached (r : Registry) (s : Schema) (q : Query) : List Source :=
  joinedSources r s q.joins

theorem sources_eq (q : Query) (r : Registry) (s : Schema) (root : Bool) :
    q.sources r s root = ⟨s, root, q.options⟩ :: q.reached r s := by
  cases q
  rw [sources]
  rfl

/-- The columns of the query itself come first. -/
theorem projection_prefix (q : Query) (r : Registry) (s : Schema) (root : Bool) :
    Source.projection r ⟨s, root, q.options⟩ <+:
      (q.sources r s root).flatMap (Source.projection r) := by
  rw [sources_eq, List.flatMap_cons]
  exact List.prefix_append _ _

/-- A selection has the clauses of the query for its model, and the page that the query itself asks
for. -/
theorem selection_eq_ok {q : Query} {selected : Selection} : q.selection r = .ok selected ↔
    ∃ s clauses, r.schema? q.model = some s ∧ q.clausesOf r s true = .ok clauses ∧
      selected = { table := q.model, clauses, page := page? q.options } := by
  unfold selection
  simp only [bind_eq_ok, Registry.require_eq_ok, Except.ok.injEq, eq_comm (b := selected),
    exists_and_left]

/-- A selection reads the columns of the root query and then those of the sources it reaches. -/
theorem selection_projection {q : Query} {selected : Selection}
    (h : q.selection r = .ok selected) : ∃ s, r.schema? q.model = some s ∧
      selected.clauses.projection = (q.sources r s true).flatMap (Source.projection r) := by
  obtain ⟨s, clauses, hs, hclauses, rfl⟩ := selection_eq_ok.mp h
  exact ⟨s, hs, clausesOf_projection q s true clauses hclauses⟩

end Query

end EntityStore
