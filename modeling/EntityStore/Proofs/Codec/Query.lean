import EntityStore.Codec.Query
import EntityStore.Proofs.Json.Canonical
import EntityStore.Proofs.Json.Shape
import Mathlib

/-!
Queries are read back from the documents that are written of them. What is read of any document is
in canonical form, and exactly the queries in this form are written so that they are read back: a
node is never mistaken for one of the other kind, nothing that is left out differs from what it
stands for, and only words that name themselves are written.
-/
namespace EntityStore

theorem Comparison.ofSymbol?_symbol (c : Comparison) : ofSymbol? c.symbol = some c := by
  cases c <;> rfl

theorem Connector.ofSymbol?_symbol (c : Connector) : ofSymbol? c.symbol = some c := by
  cases c <;> rfl

theorem JoinKind.ofName_name (k : JoinKind) : ofName k.name = k := by
  cases k <;> cbv

inductive Condition.IsCanonical : Condition → Prop
  | compare {field : String} {operator : Comparison} {value : Json} {isField : Bool}
    {model : Option String} : value.IsCanonical →
    IsCanonical (.compare field operator value isField model)
  | connect {operator : Connector} {children : List Condition} {model : Option String} :
    (∀ c ∈ children, IsCanonical c) → IsCanonical (.connect operator children model)

structure ReadOptions.IsCanonical (o : ReadOptions) : Prop where
  limit : ∀ n ∈ o.limit, n ≤ Text.maxUInt64
  offset : ∀ n ∈ o.offset, n ≤ Text.maxUInt64
  page : ∀ n ∈ o.page, n ≤ Text.maxUInt64

inductive Query.IsCanonical : Query → Prop
  | intro {options : ReadOptions} {model : String} {condition : Option Condition}
    {joins : List (Join Query)} : options.IsCanonical → (∀ c ∈ condition, c.IsCanonical) →
    (∀ j ∈ joins, IsCanonical j.query) → IsCanonical ⟨options, model, condition, joins⟩

section ReadBack

namespace Condition

theorem toJsons_eq_map (cs : List Condition) : toJsons cs = cs.map toJson := by
  induction cs with
  | nil => rfl
  | cons c rest ih => rw [toJsons, ih, List.map_cons]

theorem comparisonOf?_members {field : String} {operator : Comparison} {value : Json}
    {isField : Bool} {model : Option String} (h : value.IsCanonical) :
    comparisonOf? ([("field", .str field)] ++ (if isField then [("isField", .bool true)] else []) ++
      modelMember model ++ [("op", .str operator.symbol), ("value", value)]) =
    some (.compare field operator value isField model) := by
  cases isField <;> cases model <;>
    simp [comparisonOf?, modelMember, Record.required?, Record.defaulted?, Record.optional?,
      Record.member?, Json.string?, Json.named?, Json.word?, Json.boolean?, Json.nullable?,
      Comparison.ofSymbol?_symbol, h.canonical_eq]

theorem ofItems?_toJsons {cs : List Condition} (h : ∀ c ∈ cs, ofJson? (toJson c) = some c) :
    ofItems? (toJsons cs) = some cs := by
  rw [toJsons_eq_map]
  induction cs with
  | nil => rfl
  | cons c rest ih =>
    obtain ⟨hc, hrest⟩ := List.forall_mem_cons.mp h
    simp [ofItems?, hc, ih hrest]

/-- A connector names no field, so it fits no comparison. -/
theorem comparisonOf?_connector (children : List Condition) (model : Option String)
    (symbol : String) :
    comparisonOf? ([("children", .arr (toJsons children))] ++ modelMember model ++
      [("op", .str symbol)]) = none := by
  cases model <;> simp [comparisonOf?, modelMember, Record.required?, Record.member?]

theorem connectorOf?_members {operator : Connector} {children : List Condition}
    {model : Option String} (h : ofItems? (toJsons children) = some children) :
    let members := [("children", .arr (toJsons children))] ++ modelMember model ++
      [("op", .str operator.symbol)]
    connectorOf? members (readMembers members) = some (.connect operator children model) := by
  cases model <;>
    simp [connectorOf?, readMembers, childrenOf?, modelMember, Record.required?,
      Record.optional?, Record.defaulted?, Record.member?, Json.string?, Json.named?, Json.word?,
      Json.nullable?, Connector.ofSymbol?_symbol, h]

theorem ofJson?_toJson {c : Condition} (h : c.IsCanonical) : ofJson? (toJson c) = some c := by
  induction h with
  | compare hvalue =>
    rw [toJson, ofJson?, comparisonOf?_members hvalue, Option.some_or]
  | connect _ ih =>
    rw [toJson, ofJson?, comparisonOf?_connector, Option.none_or]
    exact connectorOf?_members (ofItems?_toJsons ih)

theorem nullable?_toJson {c : Option Condition} (h : ∀ d ∈ c, d.IsCanonical) :
    Json.nullable? ofJson? (Json.ofOption toJson c) = some c := by
  cases c with
  | none => rfl
  | some c =>
    have hc := ofJson?_toJson (h c rfl)
    cases c <;> simpa [Json.ofOption, Json.nullable?, toJson] using hc

end Condition

theorem RelationFetch.ofJson?_toJson (f : RelationFetch) : ofJson? f.toJson = some f := by
  obtain ⟨name, fields⟩ := f
  cases fields with
  | none => rfl
  | some names =>
    simp [toJson, ofJson?, ofRecord?, Record.required?, Record.member?, Json.string?,
      Json.array?_str]

theorem OrderBy.ofJson?_toJson (o : OrderBy) : ofJson? o.toJson = some o := by
  simp [toJson, ofJson?, Json.fields?, Record.required?, Record.defaulted?, Record.member?,
    Json.string?, Json.boolean?]

namespace Query

theorem join?_joinToJson {j : Join Query} (h : ofJson? (toJson j.query) = some j.query) :
    join? (joinToJson j) = some j := by
  obtain ⟨kind, field, query⟩ := j
  have hquery : ofJson? (toJson query) = some query := h
  simp [joinToJson, join?, joinOfMembers?, readQueries, readUnder?, Record.required?,
    Record.defaulted?, Record.member?, Json.string?, JoinKind.ofJson?, JoinKind.ofName_name, hquery]

theorem joins?_joinsToJson {joins : List (Join Query)}
    (h : ∀ j ∈ joins, ofJson? (toJson j.query) = some j.query) :
    joins? (.arr (joinsToJson joins)) = some joins := by
  rw [joins?]
  induction joins with
  | nil => rfl
  | cons j rest ih =>
    obtain ⟨hj, hrest⟩ := List.forall_mem_cons.mp h
    simp [joinsToJson, joinItems?, join?_joinToJson hj, ih hrest]

theorem ofJson?_toJson {q : Query} (h : q.IsCanonical) : ofJson? (toJson q) = some q := by
  induction h with
  | @intro options model condition joins hoptions hcondition hjoins ih =>
    have hjoined := joins?_joinsToJson ih
    have hfilter := Condition.nullable?_toJson hcondition
    have hlimit := Json.nullable?_ofNat hoptions.limit
    have hoffset := Json.nullable?_ofNat hoptions.offset
    have hpage := Json.nullable?_ofNat hoptions.page
    have hfields := Json.array?_str options.fields
    have horders : Json.array? OrderBy.ofJson? (.arr (options.orderBy.map OrderBy.toJson)) =
        some options.orderBy := Json.array?_map fun o _ => o.ofJson?_toJson
    have hrelations : Json.array? RelationFetch.ofJson?
        (.arr (options.relations.map RelationFetch.toJson)) = some options.relations :=
      Json.array?_map fun f _ => f.ofJson?_toJson
    simp [toJson, ofJson?, ofMembers?, ReadOptions.ofRecord?, readJoins, readUnder?,
      Record.optional?, Record.defaulted?, Record.member?, Json.string?, hjoined, hfilter, hlimit,
      hoffset, hpage, hfields, horders, hrelations]

end Query

end ReadBack

section Read

namespace Condition

theorem isCanonical_of_comparisonOf? {r : Record} {c : Condition} (h : comparisonOf? r = some c) :
    c.IsCanonical := by
  simp only [comparisonOf?, Option.bind_eq_bind, Option.bind_eq_some_iff, Option.some.injEq] at h
  obtain ⟨_, -, _, -, value, hvalue, _, -, _, -, rfl⟩ := h
  obtain ⟨v, hv⟩ := Record.exists_of_required? hvalue
  cases hv
  exact .compare (Json.isCanonical_canonical v)

theorem isCanonical_of_ofItems? {items : List Json} {cs : List Condition}
    (hitems : ∀ v ∈ items, ∀ c, ofJson? v = some c → c.IsCanonical)
    (h : ofItems? items = some cs) : ∀ c ∈ cs, c.IsCanonical := by
  induction items generalizing cs with
  | nil =>
    cases h
    exact fun c hc => nomatch hc
  | cons v rest ih =>
    obtain ⟨hv, hrest⟩ := List.forall_mem_cons.mp hitems
    simp only [ofItems?, Option.bind_eq_bind, Option.bind_eq_some_iff, Option.some.injEq] at h
    obtain ⟨c, hc, cs, hcs, rfl⟩ := h
    exact List.forall_mem_cons.mpr ⟨hv c hc, ih hrest hcs⟩

/-- The lists of nodes that are read of members are those of arrays among them. -/
theorem exists_of_readMembers {members : Record} {m : String × Option (List Condition)}
    {cs : List Condition} (hm : m ∈ readMembers members) (hcs : m.2 = some cs) :
    ∃ k items, (k, .arr items) ∈ members ∧ ofItems? items = some cs := by
  induction members with
  | nil => cases hm
  | cons first rest ih =>
    obtain ⟨k, v⟩ := first
    have hrest : m ∈ readMembers rest →
        ∃ key items, (key, .arr items) ∈ (k, v) :: rest ∧ ofItems? items = some cs := by
      intro hmem
      obtain ⟨key, items, hitem, hread⟩ := ih hmem
      exact ⟨key, items, List.mem_cons_of_mem _ hitem, hread⟩
    cases v with
    | arr items =>
      rcases List.mem_cons.mp hm with rfl | hmem
      · exact ⟨k, items, List.mem_cons_self .., hcs⟩
      · exact hrest hmem
    | _ =>
      rcases List.mem_cons.mp hm with rfl | hmem
      · cases hcs
      · exact hrest hmem

theorem isCanonical_of_connectorOf? {members : Record} {c : Condition}
    (hmembers : ∀ m ∈ members, ∀ items, m.2 = .arr items → ∀ v ∈ items, ∀ c,
      ofJson? v = some c → c.IsCanonical)
    (h : connectorOf? members (readMembers members) = some c) : c.IsCanonical := by
  simp only [connectorOf?, Option.bind_eq_bind, Option.bind_eq_some_iff, Option.some.injEq] at h
  obtain ⟨_, -, children, hchildren, _, -, rfl⟩ := h
  unfold childrenOf? at hchildren
  split at hchildren
  · next m hm =>
    have hmem : m ∈ readMembers members :=
      List.mem_of_mem_filter (hm ▸ List.mem_singleton.mpr rfl)
    obtain ⟨k, items, hitems, hread⟩ := exists_of_readMembers hmem hchildren
    exact .connect (isCanonical_of_ofItems? (hmembers _ hitems items rfl) hread)
  · cases hchildren

/-- The induction speaks of the elements of an array too, as a connector lists its nodes in one. -/
theorem isCanonical_of_ofJson? {v : Json} {c : Condition} (h : ofJson? v = some c) :
    c.IsCanonical := by
  suffices hv : (∀ c, ofJson? v = some c → c.IsCanonical) ∧
      ∀ items, v = .arr items → ∀ w ∈ items, ∀ c, ofJson? w = some c → c.IsCanonical from
    hv.1 c h
  clear h
  induction v using Json.induction with
  | null | bool | num | str => exact ⟨fun c h => (nomatch h), fun items h => (nomatch h)⟩
  | arr items ih =>
    refine ⟨fun c h => (nomatch h), ?_⟩
    rintro _ ⟨⟩ w hw
    exact (ih w hw).1
  | obj members ih =>
    refine ⟨fun c h => ?_, fun items h => (nomatch h)⟩
    rcases Option.or_eq_some_iff.mp h with hcompare | ⟨-, hconnect⟩
    · exact isCanonical_of_comparisonOf? hcompare
    · exact isCanonical_of_connectorOf? (fun m hm => (ih m hm).2) hconnect

end Condition

theorem ReadOptions.isCanonical_of_ofRecord? {r : Record} {o : ReadOptions}
    (h : ofRecord? r = some o) : o.IsCanonical := by
  simp only [ofRecord?, Option.bind_eq_bind, Option.bind_eq_some_iff, Option.some.injEq] at h
  obtain ⟨_, -, _, -, _, -, limit, hlimit, offset, hoffset, page, hpage, rfl⟩ := h
  have hbound : ∀ {names : List String} {x : Option Nat},
      Record.optional? names Json.uint64? r = some x → ∀ n ∈ x, n ≤ Text.maxUInt64 := by
    intro names x hx n hn
    obtain ⟨v, hv⟩ := Record.exists_of_optional? hx n hn
    exact Json.uint64?_le hv
  exact ⟨hbound hlimit, hbound hoffset, hbound hpage⟩

namespace Query

/-- What is found under a key has been read of one of the members. -/
theorem exists_of_readUnder? {α : Type} {key : String} {read : List (String × Option α)} {x : α}
    (h : readUnder? key read = some (some x)) : ∃ m ∈ read, m.2 = some x := by
  unfold readUnder? at h
  split at h
  · cases h
  · next k y hm =>
    cases h
    exact ⟨(k, some x), List.mem_of_mem_filter (hm ▸ List.mem_singleton.mpr rfl), rfl⟩
  · cases h

def CanonicalJoins (js : List (Join Query)) : Prop :=
  ∀ j ∈ js, j.query.IsCanonical

theorem isCanonical_of_ofMembers? {r : Record} {read : List (String × Option (List (Join Query)))}
    {q : Query} (hread : ∀ m ∈ read, ∀ js, m.2 = some js → CanonicalJoins js)
    (h : ofMembers? r read = some q) : q.IsCanonical := by
  simp only [ofMembers?, Option.bind_eq_bind, Option.bind_eq_some_iff, Option.some.injEq] at h
  obtain ⟨options, hoptions, _, -, condition, hcondition, joins, hjoins, rfl⟩ := h
  refine .intro (ReadOptions.isCanonical_of_ofRecord? hoptions) ?_ ?_
  · intro c hc
    obtain ⟨v, hv⟩ := Record.exists_of_optional? hcondition c hc
    exact Condition.isCanonical_of_ofJson? hv
  · cases joins with
    | none => exact fun j hj => nomatch hj
    | some js =>
      obtain ⟨m, hm, hjs⟩ := exists_of_readUnder? hjoins
      exact hread m hm js hjs

theorem isCanonical_of_joinOfMembers? {r : Record} {read : List (String × Option Query)}
    {j : Join Query} (hread : ∀ m ∈ read, ∀ q, m.2 = some q → q.IsCanonical)
    (h : joinOfMembers? r read = some j) : j.query.IsCanonical := by
  simp only [joinOfMembers?, Option.bind_eq_bind, Option.bind_eq_some_iff, Option.some.injEq] at h
  obtain ⟨_, -, _, -, found, hfound, q, hq, rfl⟩ := h
  subst hq
  obtain ⟨m, hm, hq⟩ := exists_of_readUnder? hfound
  exact hread m hm q hq

theorem isCanonical_of_joinItems? {items : List Json} {js : List (Join Query)}
    (hitems : ∀ v ∈ items, ∀ j, join? v = some j → j.query.IsCanonical)
    (h : joinItems? items = some js) : CanonicalJoins js := by
  induction items generalizing js with
  | nil =>
    cases h
    exact fun j hj => nomatch hj
  | cons v rest ih =>
    obtain ⟨hv, hrest⟩ := List.forall_mem_cons.mp hitems
    simp only [joinItems?, Option.bind_eq_bind, Option.bind_eq_some_iff, Option.some.injEq] at h
    obtain ⟨j, hj, js, hjs, rfl⟩ := h
    exact List.forall_mem_cons.mpr ⟨hv j hj, ih hrest hjs⟩

theorem readJoins_eq_map (members : List (String × Json)) :
    readJoins members = members.map fun m => (m.1, joins? m.2) := by
  induction members with
  | nil => rfl
  | cons m rest ih => rw [readJoins, ih, List.map_cons]

theorem readJoinItems_eq_map (items : List Json) : readJoinItems items = items.map joins? := by
  induction items with
  | nil => rfl
  | cons v rest ih => rw [readJoinItems, ih, List.map_cons]

theorem readQueries_eq_map (members : List (String × Json)) :
    readQueries members = members.map fun m => (m.1, ofJson? m.2) := by
  induction members with
  | nil => rfl
  | cons m rest ih => rw [readQueries, ih, List.map_cons]

theorem readQueryItems_eq_map (items : List Json) : readQueryItems items = items.map ofJson? := by
  induction items with
  | nil => rfl
  | cons v rest ih => rw [readQueryItems, ih, List.map_cons]

/-- Whether all that is read of a value is in canonical form: as a query, as joins and as a join. -/
structure ReadsCanonical (v : Json) : Prop where
  query : ∀ q, ofJson? v = some q → q.IsCanonical
  joins : ∀ js, joins? v = some js → CanonicalJoins js
  join : ∀ j, join? v = some j → j.query.IsCanonical

theorem readsCanonical (v : Json) : ReadsCanonical v := by
  induction v using Json.induction with
  | null | bool | num | str =>
    exact ⟨fun q h => (nomatch h), fun js h => (nomatch h), fun j h => (nomatch h)⟩
  | arr items ih =>
    refine ⟨fun q h => ?_, fun js h => ?_, fun j h => ?_⟩
    · rw [ofJson?, readJoinItems_eq_map] at h
      obtain ⟨r, -, hq⟩ := Option.bind_eq_some_iff.mp h
      refine isCanonical_of_ofMembers? (fun m hm js hjs => ?_) hq
      obtain ⟨v, hv, hread⟩ := List.mem_map.mp (List.of_mem_zip hm).2
      exact (ih v hv).joins js (hread.trans hjs)
    · exact isCanonical_of_joinItems? (fun v hv => (ih v hv).join) h
    · rw [join?, readQueryItems_eq_map] at h
      obtain ⟨r, -, hj⟩ := Option.bind_eq_some_iff.mp h
      refine isCanonical_of_joinOfMembers? (fun m hm q hq => ?_) hj
      obtain ⟨v, hv, hread⟩ := List.mem_map.mp (List.of_mem_zip hm).2
      exact (ih v hv).query q (hread.trans hq)
  | obj members ih =>
    refine ⟨fun q h => ?_, fun js h => (nomatch h), fun j h => ?_⟩
    · rw [ofJson?, readJoins_eq_map] at h
      refine isCanonical_of_ofMembers? (fun m hm js hjs => ?_) h
      obtain ⟨member, hmember, rfl⟩ := List.mem_map.mp hm
      exact (ih member hmember).joins js hjs
    · rw [join?, readQueries_eq_map] at h
      refine isCanonical_of_joinOfMembers? (fun m hm q hq => ?_) h
      obtain ⟨member, hmember, rfl⟩ := List.mem_map.mp hm
      exact (ih member hmember).query q hq

end Query

end Read

/-- Exactly the queries whose numbers fit 64 bits and whose values are in canonical form are read
back from what is written of them, and every query that is read of a document is one of them. -/
theorem query_read_back :
    (∀ q : Query, Query.ofJson? q.toJson = some q ↔ q.IsCanonical) ∧
    ∀ (v : Json) (q : Query), Query.ofJson? v = some q → Query.ofJson? q.toJson = some q := by
  have hread : ∀ (v : Json) (q : Query), Query.ofJson? v = some q → q.IsCanonical :=
    fun v => (Query.readsCanonical v).query
  refine ⟨fun q => ⟨hread q.toJson q, Query.ofJson?_toJson⟩, fun v q h => ?_⟩
  exact Query.ofJson?_toJson (hread v q h)

namespace Sample

/-- A query as it may be written: members in any order, a kind of join that there is not, and an
order under its other name. -/
def request : Json := .obj [
  ("order_by", .arr [.obj [("field", .str "name")]]),
  ("model", .str "Role"),
  ("joins", .arr [.obj [
    ("kind", .str "sideways"), ("field", .str "owner"), ("query", .obj [("model", .str "User")])]]),
  ("condition", .obj [("op", .str "OR"), ("children", .arr [.obj [
    ("value", .obj [("b", .null), ("a", .bool true)]), ("op", .str "="),
    ("field", .str "meta")]])]),
  ("relations", .arr [.str "permissions"])]

def requested : Query where
  options := {
    relations := [{ name := "permissions" }]
    orderBy := [{ field := "name" }] }
  model := "Role"
  condition := some (.any [.equals "meta" (.obj [("a", .bool true), ("b", .null)])])
  joins := [{ kind := .left, field := "owner", query := { model := "User" } }]

end Sample

open Sample in
theorem query_read_back_of_request :
    Query.ofJson? request = some requested ∧ Query.ofJson? requested.toJson = some requested := by
  have h : Query.ofJson? request = some requested := by cbv
  exact ⟨h, query_read_back.2 request requested h⟩

end EntityStore
