import EntityStore.Proofs.Selection.KeptJoins

/-!
Which queries are refused. A query that is read may ask to read along none but fields of its model;
nothing else is refused, since relations lead to models and what is not stored is left out. What
stands behind a join that does not fit is not looked at.
-/
namespace EntityStore

namespace Query

def AsksUnknown (r : Registry) (q : Query) (name : String) : Prop :=
  ∃ s, r.schema? q.model = some s ∧ name ∉ s.fields.map Field.name ∧
    name ∈ q.options.relations.map RelationFetch.name

mutual

def fitting (r : Registry) : Query → Query
  | ⟨options, model, condition, joins⟩ => ⟨options, model, condition, fittingJoins r model joins⟩

def fittingJoins (r : Registry) (model : String) : List (Join Query) → List (Join Query)
  | [] => []
  | j :: rest => (fittingJoin? r model j).toList ++ fittingJoins r model rest

def fittingJoin? (r : Registry) (model : String) : Join Query → Option (Join Query)
  | ⟨kind, field, query⟩ =>
    if joinFits r model field query.model then some ⟨kind, field, fitting r query⟩ else none

end

variable {r : Registry} {s : Schema}

section Rows

theorem field?_eq_none {name : String} :
    s.field? name = none ↔ name ∉ s.fields.map Field.name := by
  simp [Schema.field?, List.find?_eq_none]

/-- A relation that is a field is never refused: its model is registered. -/
theorem embeddedRows_cons (hs : s ∈ r.schemas) {fetch : RelationFetch} {f : Field}
    (hf : s.field? fetch.name = some f) (rest : List RelationFetch) :
    ∃ here, embeddedRows r s (fetch :: rest) = (embeddedRows r s rest).map (here ++ ·) := by
  rw [embeddedRows, hf]
  cases hkind : f.kind.reference? with
  | none =>
    refine ⟨[], ?_⟩
    simp only [hkind]
    cases embeddedRows r s rest <;> rfl
  | some relation =>
    obtain ⟨t, ht⟩ := r.exists_related hs (List.mem_of_find?_eq_some hf)
      (FieldKind.relation?_of_reference? hkind)
    refine ⟨(embeddedRow? s f fetch t).toList, ?_⟩
    simp only [hkind, Registry.require_eq_ok.mpr ht]
    cases embeddedRows r s rest <;> rfl

/-- The rows of relations are refused exactly where one of these is no field. -/
theorem embeddedRows_cases (hs : s ∈ r.schemas) (relations : List RelationFetch) :
    ((∃ rows, embeddedRows r s relations = .ok rows) ∧
      ∀ fetch ∈ relations, fetch.name ∈ s.fields.map Field.name) ∨
    ∃ fetch ∈ relations, fetch.name ∉ s.fields.map Field.name ∧
      embeddedRows r s relations =
        .error (.validation (.unknownRelation fetch.name s.name s.name)) := by
  induction relations with
  | nil => exact .inl ⟨⟨[], rfl⟩, by simp⟩
  | cons fetch rest ih =>
    cases hf : s.field? fetch.name with
    | none =>
      refine .inr ⟨fetch, List.mem_cons_self .., field?_eq_none.mp hf, ?_⟩
      rw [embeddedRows, hf]
    | some f =>
      have hknown : fetch.name ∈ s.fields.map Field.name := by
        by_contra hunknown
        rw [field?_eq_none.mpr hunknown] at hf
        cases hf
      obtain ⟨here, hcons⟩ := embeddedRows_cons hs hf rest
      rcases ih with ⟨⟨rows, hrows⟩, hall⟩ | ⟨bad, hbad, hno, herror⟩
      · refine .inl ⟨⟨here ++ rows, ?_⟩, List.forall_mem_cons.mpr ⟨hknown, hall⟩⟩
        rw [hcons, hrows]
        rfl
      · refine .inr ⟨bad, List.mem_cons_of_mem _ hbad, hno, ?_⟩
        rw [hcons, herror]
        rfl

end Rows

section Joins

variable {q p : Query} {j : Join Query}

theorem joinedClauses_cons_of_unfit (hs : r.schema? q.model = some s) (hfits : q.fits r j = false)
    (rest : List (Join Query)) : joinedClauses r s (j :: rest) = joinedClauses r s rest := by
  have hclause := @joinClause?_of_fits r s q j hs
  obtain ⟨kind, field, query⟩ := j
  rcases hclause with ⟨-, hnone⟩ | ⟨t, hfitting, -⟩
  · rw [joinedClauses, clausesOfJoin, hnone]
    cases joinedClauses r s rest with
    | error f => rfl
    | ok others => simp only [bind, Except.bind, append_empty_left]
  · rw [hfits] at hfitting
    cases hfitting

theorem joinedClauses_cons_of_fits (hs : r.schema? q.model = some s) (hfits : q.fits r j = true)
    (rest : List (Join Query)) : ∃ t, r.schema? j.query.model = some t ∧
      joinedClauses r s (j :: rest) = (do
        let nested ← j.query.clausesOf r t false
        let others ← joinedClauses r s rest
        .ok ((Clauses.append { joins := [KeptJoin.clause r ⟨q, j⟩] } nested).append others)) := by
  have hclause := @joinClause?_of_fits r s q j hs
  obtain ⟨kind, field, query⟩ := j
  rcases hclause with ⟨hnot, -⟩ | ⟨t, -, ht, hsome⟩
  · rw [hfits] at hnot
    cases hnot
  · refine ⟨t, ht, ?_⟩
    rw [joinedClauses, clausesOfJoin, hsome]
    dsimp only
    cases query.clausesOf r t false <;> rfl

/-- What is reached is the query itself, or is reached from one that a join leads to. -/
theorem Reached.eq_or_of_join (h : Reached r q p) :
    p = q ∨ ∃ j ∈ q.joins, q.fits r j = true ∧ Reached r j.query p := by
  induction h with
  | root => exact .inl rfl
  | @join p j _ hj hfits ih =>
    rcases ih with rfl | ⟨first, hfirst, hfirstFits, hp⟩
    · exact .inr ⟨j, hj, hfits, .root⟩
    · exact .inr ⟨first, hfirst, hfirstFits, .join hp hj hfits⟩

end Joins

section Refusal

variable {q : Query}

def refusal (q : Query) (name : String) : Failure :=
  .validation (.unknownRelation name q.model q.model)

/-- A query whose reading gives this result either asks for nothing unknown, and all that is read
with it neither, or is refused for something that one of these queries asks for. -/
def Decides (r : Registry) (q : Query) (result : Except Failure Clauses) : Prop :=
  ((∃ c, result = .ok c) ∧ ∀ p, Reached r q p → ∀ name, ¬ p.AsksUnknown r name) ∨
    ∃ p name, Reached r q p ∧ p.AsksUnknown r name ∧ result = .error (p.refusal name)

theorem ownClauses_cases (hs : r.schema? q.model = some s) (root : Bool) :
    ((∃ own, ownClauses r s root q.options q.condition = .ok own) ∧
      ∀ name, ¬ q.AsksUnknown r name) ∨
    ∃ name, q.AsksUnknown r name ∧
      ownClauses r s root q.options q.condition = .error (q.refusal name) := by
  rcases embeddedRows_cases (Registry.schema?_mem hs) q.options.relations with
    ⟨⟨rows, hrows⟩, hall⟩ | ⟨fetch, hfetch, hunknown, herror⟩
  · refine .inl ⟨?_, ?_⟩
    · rw [ownClauses, hrows]
      exact ⟨_, rfl⟩
    · rintro name ⟨t, ht, hunknown, hname⟩
      rw [hs] at ht
      cases ht
      obtain ⟨fetch, hfetch, rfl⟩ := List.mem_map.mp hname
      exact hunknown (hall fetch hfetch)
  · refine .inr ⟨fetch.name, ⟨s, hs, hunknown, List.mem_map_of_mem hfetch⟩, ?_⟩
    rw [ownClauses, herror, refusal, ← Registry.schema?_name hs]
    rfl

theorem joinedClauses_cases (hs : r.schema? q.model = some s) {joins : List (Join Query)}
    (hjoins : ∀ j ∈ joins, ∀ t, r.schema? j.query.model = some t →
      Decides r j.query (j.query.clausesOf r t false)) :
    ((∃ joined, joinedClauses r s joins = .ok joined) ∧ ∀ j ∈ joins, q.fits r j = true →
      ∀ p, Reached r j.query p → ∀ name, ¬ p.AsksUnknown r name) ∨
    ∃ j ∈ joins, q.fits r j = true ∧ ∃ p name, Reached r j.query p ∧ p.AsksUnknown r name ∧
      joinedClauses r s joins = .error (p.refusal name) := by
  induction joins with
  | nil => exact .inl ⟨⟨{}, rfl⟩, by simp⟩
  | cons j rest ih =>
    obtain ⟨hj, hrest⟩ := List.forall_mem_cons.mp hjoins
    cases hfits : q.fits r j with
    | false =>
      rw [joinedClauses_cons_of_unfit hs hfits]
      refine (ih hrest).imp (fun ⟨hok, hall⟩ => ⟨hok, ?_⟩) fun ⟨k, hk, hrefused⟩ => ?_
      · refine List.forall_mem_cons.mpr ⟨fun hfitting => ?_, hall⟩
        rw [hfits] at hfitting
        cases hfitting
      · exact ⟨k, List.mem_cons_of_mem _ hk, hrefused⟩
    | true =>
      obtain ⟨t, ht, hcons⟩ := joinedClauses_cons_of_fits hs hfits rest
      rw [hcons]
      rcases hj t ht with ⟨⟨nested, hnested⟩, hnone⟩ | ⟨p, name, hp, hasks, hrefused⟩
      · rw [hnested]
        rcases ih hrest with
          ⟨⟨others, hothers⟩, hall⟩ | ⟨k, hk, hkfits, p, name, hp, hasks, hrefused⟩
        · rw [hothers]
          exact .inl ⟨⟨_, rfl⟩, List.forall_mem_cons.mpr ⟨fun _ => hnone, hall⟩⟩
        · rw [hrefused]
          exact .inr ⟨k, List.mem_cons_of_mem _ hk, hkfits, p, name, hp, hasks, rfl⟩
      · rw [hrefused]
        exact .inr ⟨j, List.mem_cons_self .., hfits, p, name, hp, hasks, rfl⟩

theorem clausesOf_decides (q : Query) : ∀ (s : Schema) (root : Bool),
    r.schema? q.model = some s → Decides r q (q.clausesOf r s root) := by
  induction q using Query.induction with
  | step options model condition joins ih =>
    intro s root hs
    rw [clausesOf]
    rcases ownClauses_cases hs root with ⟨⟨own, hown⟩, hnone⟩ | ⟨name, hasks, hrefused⟩
    · rw [show ownClauses r s root options condition = .ok own from hown]
      rcases joinedClauses_cases hs fun j hj t => ih j hj t false with
        ⟨⟨joined, hjoined⟩, hall⟩ | ⟨j, hj, hfits, p, name, hp, hasks, hrefused⟩
      · rw [hjoined]
        refine .inl ⟨⟨_, rfl⟩, fun p hp => ?_⟩
        rcases hp.eq_or_of_join with rfl | ⟨j, hj, hfits, hnested⟩
        · exact hnone
        · exact hall j hj hfits p hnested
      · rw [hrefused]
        exact .inr ⟨p, name, hp.of_join hj hfits, hasks, rfl⟩
    · rw [show ownClauses r s root options condition = _ from hrefused]
      exact .inr ⟨_, name, .root, hasks, rfl⟩

end Refusal

section Fitting

theorem fitting_model (r : Registry) (q : Query) : (q.fitting r).model = q.model := by
  cases q
  rw [fitting]

theorem joinedClauses_fitting {q : Query} (hs : r.schema? q.model = some s)
    {joins : List (Join Query)}
    (hjoins : ∀ j ∈ joins, ∀ t, r.schema? j.query.model = some t →
      (j.query.fitting r).clausesOf r t false = j.query.clausesOf r t false) :
    joinedClauses r s (fittingJoins r q.model joins) = joinedClauses r s joins := by
  induction joins with
  | nil => rfl
  | cons j rest ih =>
    obtain ⟨hj, hrest⟩ := List.forall_mem_cons.mp hjoins
    have hstep : fittingJoin? r q.model j =
        if q.fits r j then some { j with query := j.query.fitting r } else none := by
      cases j
      rw [fittingJoin?]
      rfl
    rw [fittingJoins, hstep]
    cases hfits : q.fits r j with
    | false =>
      rw [joinedClauses_cons_of_unfit hs hfits]
      exact ih hrest
    | true =>
      have hkept : q.fits r { j with query := j.query.fitting r } = true := by
        rw [← hfits, fits, fits, fitting_model]
      obtain ⟨t, ht, hcons⟩ := joinedClauses_cons_of_fits hs hfits rest
      obtain ⟨u, hu, hfitted⟩ :=
        joinedClauses_cons_of_fits hs hkept (fittingJoins r q.model rest)
      dsimp only at hu hfitted
      rw [fitting_model, ht] at hu
      cases hu
      have hclause : KeptJoin.clause r ⟨q, { j with query := j.query.fitting r }⟩ =
          KeptJoin.clause r ⟨q, j⟩ := by
        simp only [KeptJoin.clause, fitting_model]
      rw [hj t ht, ih hrest, hclause, ← hcons] at hfitted
      exact hfitted

theorem clausesOf_fitting (q : Query) : ∀ (s : Schema) (root : Bool),
    r.schema? q.model = some s → (q.fitting r).clausesOf r s root = q.clausesOf r s root := by
  induction q using Query.induction with
  | step options model condition joins ih =>
    intro s root hs
    rw [fitting, clausesOf, clausesOf,
      joinedClauses_fitting hs fun j hj t => ih j hj t false]

end Fitting

section Selection

theorem selection_of_unregistered {q : Query} (hs : r.schema? q.model = none) :
    q.selection r = .error (.validation (.notRegistered q.model)) := by
  rw [selection, Registry.require, hs]
  rfl

theorem selection_eq_map {q : Query} (hs : r.schema? q.model = some s) :
    q.selection r = (q.clausesOf r s true).map
      fun clauses => { table := q.model, clauses, page := page? q.options } := by
  rw [selection, Registry.require_eq_ok.mpr hs]
  simp only [bind, Except.bind]
  cases q.clausesOf r s true <;> rfl

/-- What a refusal says: the model of the query is not registered, or a query that is read asks to
read along what is no field of its model. -/
def Refused (r : Registry) (q : Query) (failure : Failure) : Prop :=
  (r.schema? q.model = none ∧ failure.cause = .notRegistered q.model) ∨
    ∃ p name, Reached r q p ∧ p.AsksUnknown r name ∧
      failure.cause = .unknownRelation name p.model p.model

theorem selection_cases (r : Registry) (q : Query) :
    ((∃ selected, q.selection r = .ok selected) ∧ ¬ r.schema? q.model = none ∧
      ∀ p, Reached r q p → ∀ name, ¬ p.AsksUnknown r name) ∨
    ∃ failure, q.selection r = .error failure ∧ failure.category = .validation ∧
      q.Refused r failure := by
  cases hs : r.schema? q.model with
  | none => exact .inr ⟨_, selection_of_unregistered hs, rfl, .inl ⟨hs, rfl⟩⟩
  | some s =>
    rw [selection_eq_map hs]
    rcases q.clausesOf_decides s true hs with
      ⟨⟨clauses, hclauses⟩, hnone⟩ | ⟨p, name, hp, hasks, hrefused⟩
    · rw [hclauses]
      exact .inl ⟨⟨_, rfl⟩, by simp, hnone⟩
    · rw [hrefused]
      exact .inr ⟨p.refusal name, rfl, rfl, .inr ⟨p, name, hp, hasks, rfl⟩⟩

/-- Joins that do not fit have no part in the selection, nor in the refusal. -/
theorem selection_fitting (r : Registry) (q : Query) :
    (q.fitting r).selection r = q.selection r := by
  have hmodel := fitting_model r q
  cases hs : r.schema? q.model with
  | none =>
    have hfitted : r.schema? (q.fitting r).model = none := by rw [hmodel, hs]
    rw [selection_of_unregistered hs, selection_of_unregistered hfitted, hmodel]
  | some s =>
    have hfitted : r.schema? (q.fitting r).model = some s := by rw [hmodel, hs]
    have hoptions : (q.fitting r).options = q.options := by
      cases q
      rw [fitting]
    rw [selection_eq_map hs, selection_eq_map hfitted, q.clausesOf_fitting s true hs, hmodel,
      hoptions]

end Selection

end Query

/-- A query is refused exactly where its model is not registered, or where a query that is read, the
root or one that joins that fit lead to, asks to read along what is no field of its model. The
refusal names the model or the relation, and no join that does not fit has a part in it. -/
theorem selection_refused_iff (r : Registry) (q : Query) :
    ((∃ failure, q.selection r = .error failure) ↔ r.schema? q.model = none ∨
      ∃ p name, q.Reached r p ∧ p.AsksUnknown r name) ∧
    (∀ failure, q.selection r = .error failure →
      failure.category = .validation ∧ q.Refused r failure) ∧
    (q.fitting r).selection r = q.selection r := by
  refine ⟨?_, ?_, q.selection_fitting r⟩
  · rcases q.selection_cases r with
      ⟨⟨selected, hok⟩, hregistered, hnone⟩ | ⟨failure, herror, -, hrefused⟩
    · refine iff_of_false ?_ ?_
      · rintro ⟨failure, herror⟩
        rw [hok] at herror
        cases herror
      · rintro (hunregistered | ⟨p, name, hp, hasks⟩)
        · exact hregistered hunregistered
        · exact hnone p hp name hasks
    · refine iff_of_true ⟨failure, herror⟩ ?_
      exact hrefused.imp And.left fun ⟨p, name, hp, hasks, _⟩ => ⟨p, name, hp, hasks⟩
  · intro failure hfailure
    rcases q.selection_cases r with ⟨⟨selected, hok⟩, -⟩ | ⟨other, herror, hcategory, hrefused⟩
    · rw [hok] at hfailure
      cases hfailure
    · rw [herror] at hfailure
      cases hfailure
      exact ⟨hcategory, hrefused⟩

end EntityStore
