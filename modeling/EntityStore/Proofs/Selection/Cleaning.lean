import EntityStore.Proofs.Condition.Pruning
import EntityStore.Proofs.Selection.Sources

/-!
Queries without what resolves to nothing: orders by what is not stored, joins that do not fit, and
the nodes of conditions that do not survive. What a query selects does not depend on them.
-/
namespace EntityStore

namespace Condition

section Cleaned

variable (r : Registry) (start : String)

mutual

/-- The condition without the nodes that do not survive, unless its root does not. -/
def cleaned? (path : List (Option String)) : Condition → Option Condition
  | compare field operator value isField model =>
    if survives r start path (.compare field operator value isField model) then
      some (.compare field operator value isField model)
    else none
  | connect operator children model =>
    match cleanedAll (model :: path) children with
    | [] => none
    | kept => some (.connect operator kept model)

def cleanedAll (path : List (Option String)) : List Condition → List Condition
  | [] => []
  | c :: rest => (cleaned? path c).toList ++ cleanedAll path rest

end

end Cleaned

variable {r : Registry} {start : String}

theorem resolveAll_append (source : String) (a b : List Condition) :
    resolveAll r source (a ++ b) = resolveAll r source a ++ resolveAll r source b := by
  induction a with
  | nil => rfl
  | cons c rest ih => simp [resolveAll, ih]

/-- What is left of a condition resolves to what the condition resolves to. -/
theorem cleaned?_bind_resolve? (r : Registry) (start : String) (c : Condition) : ∀ path,
    (cleaned? r start path c).bind (resolve? r (sourceAt start path)) =
      c.resolve? r (sourceAt start path) := by
  induction c using Condition.induction with
  | compare field operator value isField model =>
    intro path
    rw [cleaned?]
    split
    · rfl
    · next hdropped =>
      rcases resolves r start (.compare field operator value isField model) path with
        ⟨hnone, -, -⟩ | ⟨p, f, -, hkept, -⟩
      · rw [hnone]
        rfl
      · exact absurd hkept hdropped
  | connect operator children model ih =>
    intro path
    have hchildren : resolveAll r (sourceAt start (model :: path))
        (cleanedAll r start (model :: path) children) =
        resolveAll r (sourceAt start (model :: path)) children := by
      induction children with
      | nil => rfl
      | cons c rest ihrest =>
        have hc := ih c (List.mem_cons_self ..) (model :: path)
        have hrest := ihrest fun x hx => ih x (List.mem_cons_of_mem _ hx)
        rw [cleanedAll, resolveAll_append, hrest, resolveAll, ← hc]
        cases cleaned? r start (model :: path) c <;> simp [resolveAll]
    rw [cleaned?, resolve?, ← sourceAt_cons, ← hchildren]
    cases cleanedAll r start (model :: path) children with
    | nil => rfl
    | cons first others => simp [resolve?, ← sourceAt_cons]

end Condition

namespace Query

/-- Whether a join fits: its target is a model, and its field a column of the own table of the
model that it is joined to. -/
def joinFits (r : Registry) (model field target : String) : Bool :=
  (r.schema? target).isSome &&
    match (r.schema? model).bind fun s => s.field? field with
    | some f => f.hasColumn && !f.isLocalized
    | none => false

mutual

def cleaned (r : Registry) : Query → Query
  | ⟨options, model, condition, joins⟩ => {
      options := { options with
        orderBy := options.orderBy.filter fun o => (r.expression? model o.field).isSome }
      model
      condition := condition.bind (Condition.cleaned? r model [])
      joins := cleanedJoins r model joins }

def cleanedJoins (r : Registry) (model : String) : List (Join Query) → List (Join Query)
  | [] => []
  | j :: rest => (cleanedJoin? r model j).toList ++ cleanedJoins r model rest

def cleanedJoin? (r : Registry) (model : String) : Join Query → Option (Join Query)
  | ⟨kind, field, query⟩ =>
    if joinFits r model field query.model then some ⟨kind, field, cleaned r query⟩ else none

end

variable {r : Registry} {s : Schema}

@[simp] theorem cleaned_model (r : Registry) (q : Query) : (q.cleaned r).model = q.model := by
  cases q
  rw [cleaned]

theorem isSome_joinClause? {model : String} (hs : r.schema? model = some s) (kind : JoinKind)
    (field target : String) :
    (joinClause? r s kind field target).isSome = joinFits r model field target := by
  unfold joinClause? joinFits
  rw [hs]
  cases r.schema? target with
  | none => rfl
  | some t =>
    cases hf : s.field? field with
    | none => simp [hf]
    | some f =>
      cases hcolumn : f.hasColumn <;> cases hown : f.isLocalized <;> simp [hf, hcolumn, hown]

theorem schema?_of_joinClause? {kind : JoinKind} {field target : String} {t : Schema}
    {clause : JoinClause} (h : joinClause? r s kind field target = some (t, clause)) :
    r.schema? target = some t := by
  simp only [joinClause?, Option.bind_eq_bind, Option.bind_eq_some_iff] at h
  obtain ⟨u, hu, f, -, hkept⟩ := h
  split at hkept
  · cases hkept
    exact hu
  · cases hkept

theorem filterMap_orderClause? (r : Registry) (model : String) (orders : List OrderBy) :
    (orders.filter fun o => (r.expression? model o.field).isSome).filterMap
      (orderClause? r model) = orders.filterMap (orderClause? r model) := by
  induction orders with
  | nil => rfl
  | cons o rest ih =>
    cases ho : r.expression? model o.field with
    | none => simp [ho, orderClause?, ih]
    | some e => simp [ho, orderClause?, ih]

/-- The clauses of a query by itself do not depend on what resolves to nothing. -/
theorem ownClauses_cleaned (r : Registry) (s : Schema) (root : Bool) (o : ReadOptions)
    (condition : Option Condition) :
    ownClauses r s root
        { o with orderBy := o.orderBy.filter fun b => (r.expression? s.name b.field).isSome }
        (condition.bind (Condition.cleaned? r s.name [])) =
      ownClauses r s root o condition := by
  have hcondition : (condition.bind (Condition.cleaned? r s.name [])).bind
      (Condition.resolve? r s.name) = condition.bind (Condition.resolve? r s.name) := by
    cases condition with
    | none => rfl
    | some c => exact c.cleaned?_bind_resolve? r s.name []
  simp only [ownClauses, hcondition, filterMap_orderClause?]
  rfl

theorem append_empty_left (c : Clauses) : Clauses.append {} c = c := by
  simp [Clauses.append]

theorem joinedClauses_cleaned {joins : List (Join Query)}
    (hjoins : ∀ j ∈ joins, ∀ (s : Schema) (root : Bool), r.schema? j.query.model = some s →
      (j.query.cleaned r).clausesOf r s root = j.query.clausesOf r s root)
    (hs : r.schema? s.name = some s) :
    joinedClauses r s (cleanedJoins r s.name joins) = joinedClauses r s joins := by
  induction joins with
  | nil => rfl
  | cons j rest ih =>
    have hrest := ih fun x hx => hjoins x (List.mem_cons_of_mem _ hx)
    have hj := hjoins j (List.mem_cons_self ..)
    obtain ⟨kind, field, query⟩ := j
    have hfits := isSome_joinClause? hs kind field query.model
    rw [cleanedJoins, cleanedJoin?, joinedClauses, clausesOfJoin, ← hrest]
    cases hjoin : joinClause? r s kind field query.model with
    | none =>
      rw [hjoin] at hfits
      simp only [← hfits, Option.isSome_none, Bool.false_eq_true, if_false, Option.toList_none,
        List.nil_append]
      cases joinedClauses r s (cleanedJoins r s.name rest) with
      | error f => rfl
      | ok others => simp [bind, Except.bind, append_empty_left]
    | some kept =>
      obtain ⟨t, clause⟩ := kept
      rw [hjoin] at hfits
      simp only [← hfits, Option.isSome_some, if_true, Option.toList_some, List.cons_append,
        List.nil_append]
      rw [joinedClauses, clausesOfJoin, cleaned_model, hjoin]
      simp only [hj t false (schema?_of_joinClause? hjoin)]

theorem clausesOf_cleaned (q : Query) : ∀ (s : Schema) (root : Bool),
    r.schema? q.model = some s →
      (q.cleaned r).clausesOf r s root = q.clausesOf r s root := by
  induction q using Query.induction with
  | step options model condition joins ih =>
    intro s root hs
    have hname : s.name = model := Registry.schema?_name hs
    subst hname
    rw [cleaned, clausesOf, clausesOf, ownClauses_cleaned, joinedClauses_cleaned ih hs]

section Failure

variable {failure : Failure}

theorem isRefusal_of_embeddedRows {relations : List RelationFetch}
    (h : embeddedRows r s relations = .error failure) : failure.IsRefusal := by
  induction relations with
  | nil => cases h
  | cons fetch rest ih =>
    rw [embeddedRows] at h
    cases hf : s.field? fetch.name with
    | none =>
      rw [hf] at h
      cases h
      refine ⟨rfl, ?_⟩
      rintro ⟨message, hmessage⟩
      cases hmessage
    | some f =>
      rw [hf] at h
      cases hkind : f.kind.reference? with
      | none =>
        simp only [hkind, bind_eq_error, pure, Except.pure, reduceCtorEq, false_or, and_false,
          exists_false, or_false] at h
        obtain ⟨-, -, hrest⟩ := h
        exact ih hrest
      | some relation =>
        simp only [hkind, bind_eq_error, pure, Except.pure, reduceCtorEq, false_or, and_false,
          exists_false, or_false] at h
        rcases h with hrelated | ⟨-, -, -, -, hrest⟩
        · exact Registry.isRefusal_of_require hrelated
        · exact ih hrest

theorem isRefusal_of_joinedClauses {joins : List (Join Query)}
    (hjoins : ∀ j ∈ joins, ∀ (s : Schema) (root : Bool),
      j.query.clausesOf r s root = .error failure → failure.IsRefusal)
    (h : joinedClauses r s joins = .error failure) : failure.IsRefusal := by
  induction joins with
  | nil => cases h
  | cons j rest ih =>
    have hj := hjoins j (List.mem_cons_self ..)
    obtain ⟨kind, field, query⟩ := j
    rw [joinedClauses, clausesOfJoin] at h
    simp only [bind_eq_error, reduceCtorEq, and_false, exists_false, or_false] at h
    rcases h with hfirst | ⟨-, -, hothers⟩
    · split at hfirst
      · cases hfirst
      · next t clause _ =>
        simp only [bind_eq_error, reduceCtorEq, and_false, exists_false, or_false] at hfirst
        exact hj t false hfirst
    · exact ih (fun x hx => hjoins x (List.mem_cons_of_mem _ hx)) hothers

theorem isRefusal_of_clausesOf (q : Query) : ∀ (s : Schema) (root : Bool),
    q.clausesOf r s root = .error failure → failure.IsRefusal := by
  induction q using Query.induction with
  | step options model condition joins ih =>
    intro s root h
    rw [clausesOf] at h
    simp only [ownClauses, bind_eq_error, reduceCtorEq, and_false, exists_false, or_false] at h
    rcases h with hrows | ⟨-, -, hjoined⟩
    · exact isRefusal_of_embeddedRows hrows
    · exact isRefusal_of_joinedClauses ih hjoined

/-- A query that is refused was asked for a model or a relation that is not there. -/
theorem isRefusal_of_selection {q : Query} (h : q.selection r = .error failure) :
    failure.IsRefusal := by
  simp only [selection, bind_eq_error, reduceCtorEq, and_false, exists_false, or_false] at h
  rcases h with hmodel | ⟨s, -, hclauses⟩
  · exact Registry.isRefusal_of_require hmodel
  · exact isRefusal_of_clausesOf q s true hclauses

theorem category_of_selection {q : Query} (h : q.selection r = .error failure) :
    failure.category = .validation :=
  (isRefusal_of_selection h).category

end Failure

end Query

/-- A query selects what it selects without the orders, joins and parts of conditions that resolve
to nothing, and is refused where it is refused without them. -/
theorem selection_cleaned (r : Registry) (q : Query) :
    (q.cleaned r).selection r = q.selection r ∧
      ∀ failure, q.selection r = .error failure → failure.category = .validation := by
  refine ⟨?_, fun _ => Query.category_of_selection⟩
  unfold Query.selection
  rw [Query.cleaned_model]
  cases hs : r.schema? q.model with
  | none => simp [Registry.require, hs, bind, Except.bind]
  | some s =>
    have hrequire := Registry.require_eq_ok.mpr hs
    have hpage : Query.page? (q.cleaned r).options = Query.page? q.options := by
      cases q
      rw [Query.cleaned]
      rfl
    rw [hrequire]
    simp only [bind, Except.bind, Query.clausesOf_cleaned q s true hs, hpage]

end EntityStore
