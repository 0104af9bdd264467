import EntityStore.Proofs.Selection.Cleaning
import EntityStore.Proofs.Selection.ColumnNames
import Mathlib.Data.Option.Basic

/-!
Values that are compared with fields reach a server beside the text of a statement, never in it. Two
queries that differ in such values alone are written as the same text, as long as the same of them
are null, which is written out, and where placeholders carry casts all have the same types.
-/
namespace EntityStore

structure Parameter.Alike (d : Dialect) (p p' : Parameter) : Prop where
  null_iff : p = .null ↔ p' = .null
  variant_eq : d = .postgres → p.ctorIdx = p'.ctorIdx

structure Statement.Alike (a a' : Statement) : Prop where
  sql_eq : a.sql = a'.sql
  length_eq : a.params.length = a'.params.length

inductive Piece.Alike (d : Dialect) : Piece → Piece → Prop
  | text (s : String) : Alike d (.text s) (.text s)
  | value {p p' : Parameter} : p.Alike d p' → Alike d (.value p) (.value p')

abbrev Sql.Alike (d : Dialect) : Sql → Sql → Prop :=
  List.Forall₂ (Piece.Alike d)

namespace Parameter

variable {d : Dialect} {p p' : Parameter}

theorem castType?_eq (h : p.ctorIdx = p'.ctorIdx) : p.castType? = p'.castType? := by
  cases p <;> cases p' <;> first | rfl | cases h

theorem Alike.null_or (h : p.Alike d p') : (p = .null ∧ p' = .null) ∨ (p ≠ .null ∧ p' ≠ .null) := by
  by_cases hp : p = .null
  · exact .inl ⟨hp, h.null_iff.mp hp⟩
  · exact .inr ⟨hp, fun hp' => hp (h.null_iff.mpr hp')⟩

theorem Alike.length_bound (h : p.Alike d p') :
    p.bound?.toList.length = p'.bound?.toList.length := by
  rcases h.null_or with ⟨rfl, rfl⟩ | ⟨hp, hp'⟩
  · rfl
  · rw [bound?_of_ne_null hp, bound?_of_ne_null hp']
    rfl

theorem Alike.placeholder_eq (h : p.Alike d p') (index : Nat) :
    d.placeholder index p = d.placeholder index p' := by
  cases d with
  | postgres => simp only [Dialect.placeholder, castType?_eq (h.variant_eq rfl)]
  | _ => rfl

/-- What is bound to a placeholder shows in its number at most. -/
theorem Alike.push_eq {b b' : Bindings} (h : p.Alike b.dialect p')
    (hdialect : b.dialect = b'.dialect) (hlength : b.params.length = b'.params.length) :
    (b.push p).1 = (b'.push p').1 := by
  rcases h.null_or with ⟨rfl, rfl⟩ | ⟨hp, hp'⟩
  · rw [Bindings.push_null, Bindings.push_null]
  · rw [Bindings.push_of_ne_null b hp, Bindings.push_of_ne_null b' hp', ← hdialect, ← hlength]
    exact h.placeholder_eq _

end Parameter

namespace Sql

variable {d : Dialect} {x x' : Sql}

theorem alike_refl (x : Sql) : Alike d x x := by
  refine List.forall₂_same.mpr fun piece _ => ?_
  cases piece with
  | text s => exact .text s
  | value p => exact .value ⟨Iff.rfl, fun _ => rfl⟩

theorem parts_alike_refl (xs : List Sql) : List.Forall₂ (Alike d) xs xs :=
  List.forall₂_same.mpr fun x _ => alike_refl x

theorem Alike.append {y y' : Sql} (hx : Alike d x x') (hy : Alike d y y') :
    Alike d (x ++ y) (x' ++ y') :=
  List.rel_append hx hy

theorem alike_join (separator : String) {xs xs' : List Sql} (h : List.Forall₂ (Alike d) xs xs') :
    Alike d (join separator xs) (join separator xs') := by
  induction h with
  | nil => exact .nil
  | cons hx hrest ih =>
    cases hrest with
    | nil => exact hx
    | cons hy htail => exact (Alike.append hx (alike_refl _)).append ih

theorem Alike.length_bound (h : Alike d x x') : (bound x).length = (bound x').length := by
  induction h with
  | nil => rfl
  | cons hpiece _ ih =>
    cases hpiece with
    | text s => exact ih
    | value hp => simp only [bound, List.length_append, hp.length_bound, ih]

/-- The text does not depend on the values, nor on those bound before but for their number. -/
theorem Alike.write_eq (h : Alike d x x') : ∀ b b' : Bindings, b.dialect = d → b'.dialect = d →
    b.params.length = b'.params.length → (write b x).1 = (write b' x').1 := by
  induction h with
  | nil => exact fun _ _ _ _ _ => rfl
  | cons hpiece _ ih =>
    intro b b' hb hb' hlength
    cases hpiece with
    | text s => simp only [write, ih b b' hb hb' hlength]
    | @value p p' hp =>
      subst hb
      have hpushed := write_bindings b (value p)
      have hpushed' := write_bindings b' (value p')
      rw [write_value, bound_value] at hpushed hpushed'
      have hrest := ih (b.push p).2 (b'.push p').2 (by simp [hpushed]) (by simp [hpushed', hb'])
        (by simp [hpushed, hpushed', hlength, hp.length_bound])
      simp only [write, hp.push_eq hb'.symm hlength, hrest]

theorem Alike.statement (h : Alike d x x') : (x.statement d).Alike (x'.statement d) where
  sql_eq := h.write_eq _ _ rfl rfl rfl
  length_eq := by simp only [statement_params, h.length_bound]

end Sql

def Predicate.Alike (d : Dialect) (p p' : Predicate) : Prop :=
  Sql.Alike d (p.sql d) (p'.sql d)

namespace Predicate

variable {d : Dialect}

theorem alike_compare (left : Expression) (operator : Comparison) {p p' : Parameter}
    (h : p.Alike d p') :
    Alike d (.compare left operator (.value p)) (.compare left operator (.value p')) :=
  ((Sql.alike_refl _).append (.cons (.value h) .nil)).append (Sql.alike_refl _)

theorem alike_connect (operator : Connector) {ps ps' : List Predicate}
    (h : List.Forall₂ (Alike d) ps ps') :
    Alike d (.connect operator ps) (.connect operator ps') := by
  have hchildren : List.Forall₂ (Sql.Alike d) (sqls d ps) (sqls d ps') := by
    rw [sqls_eq_map, sqls_eq_map, List.forall₂_map_left_iff, List.forall₂_map_right_iff]
    exact h
  exact ((Sql.alike_refl _).append (Sql.alike_join _ hchildren)).append (Sql.alike_refl _)

theorem alike_refl (p : Predicate) : p.Alike d p :=
  Sql.alike_refl _

end Predicate

mutual

/-- Conditions on the fields of a model that differ alone in the values that are compared with
fields. Where a field is stored, its values are bound alike. -/
inductive Condition.Alike (r : Registry) (d : Dialect) : String → Condition → Condition → Prop
  | field (source field : String) (operator : Comparison) (other : Json) (model : Option String) :
    Condition.Alike r d source (.compare field operator other true model)
      (.compare field operator other true model)
  | value {source field : String} (operator : Comparison) {v v' : Json} {model : Option String} :
    ((r.expression? (model.getD source) field).isSome →
      (r.comparand (model.getD source) field v).Alike d
        (r.comparand (model.getD source) field v')) →
    Condition.Alike r d source (.compare field operator v false model)
      (.compare field operator v' false model)
  | connect {source : String} (operator : Connector) {children children' : List Condition}
      {model : Option String} :
    Condition.AllAlike r d (model.getD source) children children' →
    Condition.Alike r d source (.connect operator children model)
      (.connect operator children' model)

inductive Condition.AllAlike (r : Registry) (d : Dialect) :
    String → List Condition → List Condition → Prop
  | nil (source : String) : Condition.AllAlike r d source [] []
  | cons {source : String} {c c' : Condition} {rest rest' : List Condition} :
    Condition.Alike r d source c c' → Condition.AllAlike r d source rest rest' →
    Condition.AllAlike r d source (c :: rest) (c' :: rest')

end

mutual

/-- Queries whose conditions are alike and that differ in nothing else, nor do those joined to
them. -/
inductive Query.Alike (r : Registry) (d : Dialect) : Query → Query → Prop
  | step (options : ReadOptions) {model : String} {condition condition' : Option Condition}
      {joins joins' : List (Join Query)} :
    Option.Rel (Condition.Alike r d model) condition condition' →
    List.Forall₂ (Join.Alike r d) joins joins' →
    Query.Alike r d ⟨options, model, condition, joins⟩ ⟨options, model, condition', joins'⟩

inductive Join.Alike (r : Registry) (d : Dialect) : Join Query → Join Query → Prop
  | step (kind : JoinKind) (field : String) {query query' : Query} :
    Query.Alike r d query query' → Join.Alike r d ⟨kind, field, query⟩ ⟨kind, field, query'⟩

end

namespace Condition

variable {r : Registry} {d : Dialect}

theorem alike_toList {p p' : Option Predicate} (h : Option.Rel (Predicate.Alike d) p p') :
    List.Forall₂ (Predicate.Alike d) p.toList p'.toList := by
  cases h with
  | none => exact .nil
  | some hp => exact .cons hp .nil

/-- Alike conditions keep the same nodes, which are alike. -/
theorem Alike.resolve {source : String} {c c' : Condition} (h : Alike r d source c c') :
    Option.Rel (Predicate.Alike d) (c.resolve? r source) (c'.resolve? r source) := by
  refine @Alike.rec r d
    (fun source c c' _ =>
      Option.Rel (Predicate.Alike d) (c.resolve? r source) (c'.resolve? r source))
    (fun source cs cs' _ =>
      List.Forall₂ (Predicate.Alike d) (resolveAll r source cs) (resolveAll r source cs'))
    ?field ?value ?connect (fun _ => .nil) ?cons source c c' h
  case field =>
    intro source field operator other model
    cases Condition.resolve? r source (.compare field operator other true model) with
    | none => exact .none
    | some p => exact .some p.alike_refl
  case value =>
    intro source field operator v v' model hbound
    cases hleft : r.expression? (model.getD source) field with
    | none =>
      simp only [resolve?, hleft, Option.bind_eq_bind, Option.bind_none]
      exact .none
    | some left =>
      have hvalue := hbound (by rw [hleft]; rfl)
      simp only [resolve?, hleft, operand?, Bool.false_eq_true, if_false, Option.bind_eq_bind,
        Option.bind_some]
      exact .some (Predicate.alike_compare left operator hvalue)
  case connect =>
    intro source operator children children' model _ hkept
    rw [resolve?, resolve?]
    generalize resolveAll r (model.getD source) children = kept at hkept ⊢
    generalize resolveAll r (model.getD source) children' = kept' at hkept ⊢
    cases hkept with
    | nil => exact .none
    | cons hfirst hrest => exact .some (Predicate.alike_connect operator (.cons hfirst hrest))
  case cons =>
    intro source c c' rest rest' _ _ hc hrest
    rw [resolveAll, resolveAll]
    exact List.rel_append (alike_toList hc) hrest

end Condition

structure Clauses.Alike (d : Dialect) (a a' : Clauses) : Prop where
  projection_eq : a.projection = a'.projection
  joins_eq : a.joins = a'.joins
  order_eq : a.order = a'.order
  conditions : List.Forall₂ (Predicate.Alike d) a.conditions a'.conditions

structure Selection.Alike (d : Dialect) (s s' : Selection) : Prop where
  select : ((s.selectSql d).statement d).Alike ((s'.selectSql d).statement d)
  count : ((s.countSql d).statement d).Alike ((s'.countSql d).statement d)

section Selections

variable {d : Dialect}

theorem Clauses.Alike.append {a a' b b' : Clauses} (ha : a.Alike d a') (hb : b.Alike d b') :
    (a.append b).Alike d (a'.append b') where
  projection_eq := by simp only [Clauses.append, ha.projection_eq, hb.projection_eq]
  joins_eq := by simp only [Clauses.append, ha.joins_eq, hb.joins_eq]
  order_eq := by simp only [Clauses.append, ha.order_eq, hb.order_eq]
  conditions := List.rel_append ha.conditions hb.conditions

namespace Selection

theorem alike_clause (introduction : String) {body body' : Sql} (h : Sql.Alike d body body') :
    List.Forall₂ (Sql.Alike d) (clause introduction body) (clause introduction body') := by
  unfold clause
  cases h with
  | nil => exact .nil
  | cons hpiece hrest => exact .cons (Sql.Alike.append (Sql.alike_refl _) (.cons hpiece hrest)) .nil

theorem alike_conditionSql {s s' : Selection} (h : s.clauses.Alike d s'.clauses) :
    Sql.Alike d (s.conditionSql d) (s'.conditionSql d) := by
  refine Sql.alike_join " AND " ?_
  rw [List.forall₂_map_left_iff, List.forall₂_map_right_iff]
  exact h.conditions

theorem alike_filters {s s' : Selection} (h : s.clauses.Alike d s'.clauses) :
    List.Forall₂ (Sql.Alike d) (s.filters d) (s'.filters d) := by
  have hjoins : s.joinSql d = s'.joinSql d := by simp only [joinSql, h.joins_eq]
  unfold filters
  rw [hjoins]
  exact List.rel_append (Sql.parts_alike_refl _) (alike_clause "WHERE " (alike_conditionSql h))

theorem alike_of_clauses {s s' : Selection} (htable : s.table = s'.table) (hpage : s.page = s'.page)
    (h : s.clauses.Alike d s'.clauses) : s.Alike d s' where
  select := by
    have hprojection : s.projectionSql d = s'.projectionSql d := by
      simp only [projectionSql, h.projection_eq]
    have horder : s.orderSql d = s'.orderSql d := by simp only [orderSql, h.order_eq]
    have hlimit : s.pageSql d = s'.pageSql d := by simp only [pageSql, hpage]
    apply Sql.Alike.statement
    unfold selectSql
    rw [htable, hprojection, horder, hlimit]
    refine Sql.alike_join " " (List.rel_append (List.rel_append ?_ (Sql.parts_alike_refl _))
      (Sql.parts_alike_refl _))
    exact List.rel_append (Sql.parts_alike_refl _) (alike_filters h)
  count := by
    apply Sql.Alike.statement
    unfold countSql
    rw [htable]
    exact Sql.alike_join " " (List.rel_append (Sql.parts_alike_refl _) (alike_filters h))

end Selection

end Selections

inductive Agree {α : Type} (related : α → α → Prop) : Except Failure α → Except Failure α → Prop
  | error (f : Failure) : Agree related (.error f) (.error f)
  | ok {a a' : α} : related a a' → Agree related (.ok a) (.ok a')

section Agree

variable {α β : Type} {related : α → α → Prop} {others : β → β → Prop}

theorem agree_refl (h : ∀ a, related a a) (x : Except Failure α) : Agree related x x := by
  cases x with
  | error f => exact .error f
  | ok a => exact .ok (h a)

theorem Agree.bind {x x' : Except Failure α} {next next' : α → Except Failure β}
    (hx : Agree related x x') (hnext : ∀ a a', related a a' → Agree others (next a) (next' a')) :
    Agree others (x >>= next) (x' >>= next') := by
  cases hx with
  | error f => exact .error f
  | ok h => exact hnext _ _ h

theorem Agree.of_ok {x x' : Except Failure α} {a a' : α} (h : Agree related x x')
    (hx : x = .ok a) (hx' : x' = .ok a') : related a a' := by
  subst hx hx'
  cases h
  assumption

end Agree

namespace Query

variable {r : Registry} {d : Dialect}

theorem ownClauses_agree (s : Schema) (root : Bool) (o : ReadOptions)
    {condition condition' : Option Condition}
    (h : Option.Rel (Condition.Alike r d s.name) condition condition') :
    Agree (Clauses.Alike d) (ownClauses r s root o condition)
      (ownClauses r s root o condition') := by
  have hconditions : List.Forall₂ (Predicate.Alike d)
      (condition.bind (Condition.resolve? r s.name)).toList
      (condition'.bind (Condition.resolve? r s.name)).toList := by
    cases h with
    | none => exact .nil
    | some hcondition =>
      exact Condition.alike_toList hcondition.resolve
  have hrows : Agree Eq (embeddedRows r s o.relations) (embeddedRows r s o.relations) :=
    agree_refl (fun _ => rfl) _
  refine hrows.bind ?_
  rintro rows _ rfl
  exact .ok ⟨rfl, rfl, rfl, hconditions⟩

theorem Alike.clauses {q q' : Query} (h : q.Alike r d q') : ∀ (s : Schema) (root : Bool),
    r.schema? q.model = some s →
      Agree (Clauses.Alike d) (q.clausesOf r s root) (q'.clausesOf r s root) := by
  refine @Alike.rec r d
    (fun q q' _ => ∀ (s : Schema) (root : Bool), r.schema? q.model = some s →
      Agree (Clauses.Alike d) (q.clausesOf r s root) (q'.clausesOf r s root))
    (fun j j' _ => ∀ s : Schema,
      Agree (Clauses.Alike d) (clausesOfJoin r s j) (clausesOfJoin r s j'))
    (fun joins joins' _ => ∀ s : Schema,
      Agree (Clauses.Alike d) (joinedClauses r s joins) (joinedClauses r s joins'))
    ?query ?join ?nil ?cons q q' h
  case query =>
    intro options model condition condition' joins joins' hcondition _ hjoins s root hs
    have hname : s.name = model := Registry.schema?_name hs
    subst hname
    rw [clausesOf, clausesOf]
    refine (ownClauses_agree s root options hcondition).bind fun own own' hown => ?_
    exact (hjoins s).bind fun joined joined' hjoined => .ok (hown.append hjoined)
  case join =>
    intro kind field query query' hquery ih s
    have hmodel : query.model = query'.model := by cases hquery; rfl
    rw [clausesOfJoin, clausesOfJoin, ← hmodel]
    cases hjoin : joinClause? r s kind field query.model with
    | none => exact .ok ⟨rfl, rfl, rfl, .nil⟩
    | some kept =>
      obtain ⟨t, clause⟩ := kept
      refine (ih t false (schema?_of_joinClause? hjoin)).bind fun nested nested' hnested => ?_
      exact .ok (Clauses.Alike.append ⟨rfl, rfl, rfl, .nil⟩ hnested)
  case nil => exact fun _ => .ok ⟨rfl, rfl, rfl, .nil⟩
  case cons =>
    intro j j' rest rest' _ _ hj hrest s
    rw [joinedClauses, joinedClauses]
    refine (hj s).bind fun first first' hfirst => ?_
    exact (hrest s).bind fun others others' hothers => .ok (hfirst.append hothers)

end Query

/-- Queries that differ in values alone are both refused, in the same way, or are written as the
same texts with as many values. -/
theorem values_not_written {r : Registry} {d : Dialect} {q q' : Query} (h : q.Alike r d q') :
    Agree (Selection.Alike d) (q.selection r) (q'.selection r) := by
  have hmodel : q.model = q'.model := by cases h; rfl
  have hoptions : q.options = q'.options := by cases h; rfl
  unfold Query.selection
  rw [← hmodel, ← hoptions]
  cases hs : r.schema? q.model with
  | none =>
    have hrefused : r.require q.model = .error (.validation (.notRegistered q.model)) := by
      rw [Registry.require, hs]
    rw [hrefused]
    exact .error _
  | some s =>
    rw [Registry.require_eq_ok.mpr hs]
    refine (h.clauses s true hs).bind fun clauses clauses' hclauses => ?_
    exact .ok (Selection.alike_of_clauses rfl rfl hclauses)

namespace Sample

def titlesOf (number name nickname : Json) : Query :=
  let owners := (Query.ofModel "User").filter
    (.any [.equals "name" name, .equals "nickname" nickname])
  ((Query.ofModel "Role").filter (.comparison "id" .greater number)).join .inner "owner" owners

end Sample

open Sample in
theorem values_not_written_of_titles :
    (titlesOf (.ofInt 1) (.str "Robert') --") .null).Alike roles .postgres
      (titlesOf (.ofInt 20) (.str "Ann") (.str "A")) ∧
    ∃ selected selected',
      (titlesOf (.ofInt 1) (.str "Robert') --") .null).selection roles = .ok selected ∧
      (titlesOf (.ofInt 20) (.str "Ann") (.str "A")).selection roles = .ok selected' ∧
      selected.Alike .postgres selected' := by
  have hnumber : (Parameter.int 1).Alike .postgres (.int 20) := ⟨by simp, fun _ => rfl⟩
  have hname : (Parameter.text "Robert') --").Alike .postgres (.text "Ann") :=
    ⟨by simp, fun _ => rfl⟩
  have howners : Condition.Alike roles .postgres "User"
      (.any [.equals "name" (.str "Robert') --"), .equals "nickname" .null])
      (.any [.equals "name" (.str "Ann"), .equals "nickname" (.str "A")]) := by
    refine .connect .or (.cons (.value .equal fun _ => hname) (.cons (.value .equal ?_) (.nil _)))
    intro hstored
    exact absurd hstored (by decide)
  have halike : (titlesOf (.ofInt 1) (.str "Robert') --") .null).Alike roles .postgres
      (titlesOf (.ofInt 20) (.str "Ann") (.str "A")) := by
    refine .step {} (.some (.value .greater fun _ => hnumber)) (.cons ?_ .nil)
    exact .step .inner "owner" (.step {} (.some howners) .nil)
  exact ⟨halike, _, _, rfl, rfl, (values_not_written halike).of_ok rfl rfl⟩

end EntityStore
