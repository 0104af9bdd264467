import EntityStore.Proofs.Checks
import Mathlib.Data.List.Nodup

/-!
Which lists of models become a registry, what a refusal says of them, and what a registry answers.
A list is accepted exactly when its models fit together, wherever the model stands that a relation
leads to.
-/
namespace EntityStore

structure Field.FitsAmong (models : List String) (f : Field) : Prop where
  relation : f.type = .relation → ∃ relation, f.relation = some relation ∧ relation.model ∈ models
  items : f.type = .list → ∃ items, f.items = some items ∧ items ≠ .relation ∧ items ≠ .list

structure Schema.FitTogether (schemas : List Schema) : Prop where
  names : (schemas.map Schema.name).Nodup
  keys : ∀ s ∈ schemas, s.primaryFields.length ≤ 1
  fields : ∀ s ∈ schemas, ∀ f ∈ s.fields, f.FitsAmong (schemas.map Schema.name)

inductive ModelError.TrueOf (schemas : List Schema) : ModelError → Prop
  | registeredTwice {model : String} : 1 < (schemas.map Schema.name).count model →
    TrueOf schemas (.registeredTwice model)
  | severalKeys {s : Schema} : s ∈ schemas → 1 < s.primaryFields.length →
    TrueOf schemas (.severalKeys s.name)
  | noRelation {s : Schema} {f : Field} : s ∈ schemas → f ∈ s.fields → f.type = .relation →
    f.relation = none → TrueOf schemas (.noRelation s.name f.name)
  | unknownTarget {s : Schema} {f : Field} {relation : Relation} : s ∈ schemas → f ∈ s.fields →
    f.type = .relation → f.relation = some relation →
    relation.model ∉ schemas.map Schema.name →
    TrueOf schemas (.unknownTarget s.name f.name relation.model)
  | noItems {s : Schema} {f : Field} : s ∈ schemas → f ∈ s.fields → f.type = .list →
    f.items = none → TrueOf schemas (.noItems s.name f.name)
  | nestedItems {s : Schema} {f : Field} {items : FieldType} : s ∈ schemas → f ∈ s.fields →
    f.type = .list → f.items = some items → items = .relation ∨ items = .list →
    TrueOf schemas (.nestedItems s.name f.name)

/-- What a list of models holds under a name: the only model that has it, or nothing. -/
inductive Schema.HeldUnder (model : String) : List Schema → Option Schema → Prop
  | found {before after : List Schema} {s : Schema} : s.name = model →
    (∀ t ∈ before ++ after, t.name ≠ model) → HeldUnder model (before ++ s :: after) (some s)
  | missing {schemas : List Schema} : (∀ t ∈ schemas, t.name ≠ model) →
    HeldUnder model schemas none

structure Registry.Serves (r : Registry) (schemas : List Schema) : Prop where
  order : r.schemas = schemas
  schema : ∀ model, Schema.HeldUnder model schemas (r.schema? model)
  required : ∀ model s, r.require model = .ok s ↔ r.schema? model = some s
  unknown : ∀ model, (∃ g, r.require model = .error g) ↔ r.schema? model = none
  refusal : ∀ model g, r.require model = .error g → g.IsRefusal
  key : ∀ s ∈ schemas, r.primaryKey s.name = s.primaryKey
  auxiliary : r.auxiliary = schemas.flatMap Schema.auxiliary

section Acceptance

variable {schemas : List Schema} {models : List String} {model : String} {f : Field}
  {e : ModelError}

/-- The cases are those of the check, in its order. -/
theorem Schema.checkField_eq_ok_iff : checkField models model f = .ok () ↔ f.FitsAmong models := by
  unfold checkField
  split
  · next htype hnone =>
    refine iff_of_false nofun fun h => ?_
    obtain ⟨relation, hrelation, -⟩ := h.relation htype
    cases hnone.symm.trans hrelation
  · next relation htype hrelation =>
    have hlist : f.type ≠ .list := by simp [htype]
    split
    · next hmem => exact iff_of_true rfl ⟨fun _ => ⟨_, hrelation, hmem⟩, fun h => absurd h hlist⟩
    · next hmem =>
      refine iff_of_false nofun fun h => ?_
      obtain ⟨other, hother, hmodel⟩ := h.relation htype
      cases hrelation.symm.trans hother
      exact hmem hmodel
  · next htype hnone =>
    refine iff_of_false nofun fun h => ?_
    obtain ⟨items, hitems, -⟩ := h.items htype
    cases hnone.symm.trans hitems
  · next htype hsome =>
    refine iff_of_false nofun fun h => ?_
    obtain ⟨items, hitems, hne, -⟩ := h.items htype
    cases hsome.symm.trans hitems
    exact hne rfl
  · next htype hsome =>
    refine iff_of_false nofun fun h => ?_
    obtain ⟨items, hitems, -, hne⟩ := h.items htype
    cases hsome.symm.trans hitems
    exact hne rfl
  · next hnoRelation hrelation hnoItems hnested hlist =>
    refine iff_of_true rfl ⟨fun htype => ?_, fun htype => ?_⟩
    · cases hsome : f.relation with
      | none => exact (hnoRelation htype hsome).elim
      | some relation => exact (hrelation relation htype hsome).elim
    · cases hsome : f.items with
      | none => exact (hnoItems htype hsome).elim
      | some items =>
        refine ⟨items, rfl, ?_, ?_⟩
        · rintro rfl
          exact hnested htype hsome
        · rintro rfl
          exact hlist htype hsome

theorem Schema.check_eq_ok_iff : check schemas = .ok () ↔ FitTogether schemas := by
  rw [check, bind_eq_ok]
  constructor
  · rintro ⟨⟨⟩, hmodels, hfields⟩
    obtain ⟨hnames, hkeys⟩ := checkModelsFrom_eq_ok.mp hmodels
    refine ⟨hnames, fun s hs => (hkeys s hs).2, fun s hs f hf => ?_⟩
    exact checkField_eq_ok_iff.mp (checkFields_eq_ok.mp hfields s hs f hf)
  · rintro ⟨hnames, hkeys, hfields⟩
    refine ⟨(), checkModelsFrom_eq_ok.mpr ⟨hnames, fun s hs => ⟨nofun, hkeys s hs⟩⟩, ?_⟩
    exact checkFields_eq_ok.mpr fun s hs f hf => checkField_eq_ok_iff.mpr (hfields s hs f hf)

theorem Registry.ofSchemas_eq_ok_iff {r : Registry} :
    ofSchemas schemas = .ok r ↔ Schema.check schemas = .ok () ∧ r.schemas = schemas := by
  unfold ofSchemas
  split
  · next hcheck =>
    constructor
    · rintro ⟨⟩
      exact ⟨hcheck, rfl⟩
    · rintro ⟨-, rfl⟩
      rfl
  · next e hcheck => simp [hcheck]

theorem Registry.ofSchemas_eq_error_iff :
    ofSchemas schemas = .error e ↔ Schema.check schemas = .error e := by
  unfold ofSchemas
  split
  · next hcheck => simp [hcheck]
  · next other hcheck => simp [hcheck]

end Acceptance

section Refusal

variable {schemas : List Schema} {models : List String} {e : ModelError}

/-- The first fault among the names and keys: each name is compared with those passed before it. -/
theorem Schema.trueOf_of_checkModelsFrom (passed rest : List Schema) {seen : List String}
    (hseen : ∀ name ∈ seen, name ∈ passed.map Schema.name)
    (h : checkModelsFrom seen rest = .error e) : e.TrueOf (passed ++ rest) := by
  induction rest generalizing passed seen with
  | nil => cases h
  | cons s rest ih =>
    rw [checkModelsFrom] at h
    split at h
    · next hmem =>
      cases h
      have hbefore := List.count_pos_iff.mpr (hseen _ hmem)
      refine .registeredTwice ?_
      rw [List.map_append, List.count_append, List.map_cons, List.count_cons_self]
      omega
    · split at h
      · next hkeys =>
        cases h
        exact .severalKeys (List.mem_append_right _ (List.mem_cons_self ..)) hkeys
      · rw [List.append_cons]
        refine ih _ (fun name hname => ?_) h
        rw [List.map_append, List.mem_append]
        rcases List.mem_cons.mp hname with rfl | hmem
        · exact .inr (List.mem_singleton.mpr rfl)
        · exact .inl (hseen name hmem)

theorem forM_eq_error {ε α : Type} {check : α → Except ε Unit} {xs : List α} {failure : ε}
    (h : xs.forM check = .error failure) : ∃ x ∈ xs, check x = .error failure := by
  induction xs with
  | nil => cases h
  | cons x rest ih =>
    have hcons : (check x >>= fun _ => rest.forM check) = .error failure := h
    rcases bind_eq_error.mp hcons with hx | ⟨-, -, hrest⟩
    · exact ⟨x, List.mem_cons_self .., hx⟩
    · obtain ⟨y, hy, hfailure⟩ := ih hrest
      exact ⟨y, List.mem_cons_of_mem _ hy, hfailure⟩

theorem Schema.exists_of_checkFields {rest : List Schema} (h : checkFields models rest = .error e) :
    ∃ s ∈ rest, ∃ f ∈ s.fields, checkField models s.name f = .error e := by
  induction rest with
  | nil => cases h
  | cons s rest ih =>
    rcases bind_eq_error.mp h with hfields | ⟨-, -, hrest⟩
    · exact ⟨s, List.mem_cons_self .., forM_eq_error hfields⟩
    · obtain ⟨t, ht, hfault⟩ := ih hrest
      exact ⟨t, List.mem_cons_of_mem _ ht, hfault⟩

theorem Schema.trueOf_of_checkField {s : Schema} (hs : s ∈ schemas) {f : Field} (hf : f ∈ s.fields)
    (h : checkField (schemas.map Schema.name) s.name f = .error e) : e.TrueOf schemas := by
  unfold checkField at h
  split at h
  · next htype hnone =>
    cases h
    exact .noRelation hs hf htype hnone
  · next relation htype hrelation =>
    split at h
    · cases h
    · next hmem =>
      cases h
      exact .unknownTarget hs hf htype hrelation hmem
  · next htype hnone =>
    cases h
    exact .noItems hs hf htype hnone
  · next htype hsome =>
    cases h
    exact .nestedItems hs hf htype hsome (.inl rfl)
  · next htype hsome =>
    cases h
    exact .nestedItems hs hf htype hsome (.inr rfl)
  · cases h

theorem Schema.trueOf_of_check (h : check schemas = .error e) : e.TrueOf schemas := by
  rcases bind_eq_error.mp h with hmodels | ⟨-, -, hfields⟩
  · exact trueOf_of_checkModelsFrom [] schemas (by simp) hmodels
  · obtain ⟨s, hs, f, hf, hfault⟩ := exists_of_checkFields hfields
    exact trueOf_of_checkField hs hf hfault

end Refusal

section Answers

variable {schemas : List Schema}

theorem Schema.heldUnder_find? (hnames : (schemas.map Schema.name).Nodup) (model : String) :
    HeldUnder model schemas (schemas.find? fun s => s.name == model) := by
  cases hfind : schemas.find? fun s => s.name == model with
  | none => exact .missing fun t ht => by simpa using List.find?_eq_none.mp hfind t ht
  | some s =>
    obtain ⟨hname, before, after, rfl, hbefore⟩ := List.find?_eq_some_iff_append.mp hfind
    have hname : s.name = model := eq_of_beq hname
    refine .found hname (List.forall_mem_append.mpr ⟨fun t ht => ?_, fun t ht heq => ?_⟩)
    · simpa using hbefore t ht
    · -- a second model of the name behind the first
      rw [List.map_append, List.map_cons] at hnames
      have hlater := (List.nodup_cons.mp (List.nodup_append.mp hnames).2.1).1
      exact hlater (List.mem_map.mpr ⟨t, ht, heq.trans hname.symm⟩)

theorem Schema.find?_of_mem (hnames : (schemas.map Schema.name).Nodup) {s : Schema}
    (hs : s ∈ schemas) : schemas.find? (fun t => t.name == s.name) = some s := by
  cases hfind : schemas.find? fun t => t.name == s.name with
  | none => simpa using List.find?_eq_none.mp hfind s hs
  | some t =>
    have hname : t.name = s.name := by simpa using List.find?_some hfind
    exact congrArg some
      (List.inj_on_of_nodup_map hnames (List.mem_of_find?_eq_some hfind) hs hname)

theorem Registry.primaryKey_of_mem (r : Registry) {s : Schema} (hs : s ∈ r.schemas) :
    r.primaryKey s.name = s.primaryKey := by
  rw [primaryKey, schema?, Schema.find?_of_mem r.names_nodup hs]

theorem Registry.serves (r : Registry) : r.Serves r.schemas where
  order := rfl
  schema := Schema.heldUnder_find? r.names_nodup
  required _ _ := require_eq_ok
  unknown model := by
    unfold require
    cases r.schema? model <;> simp
  refusal _ _ := isRefusal_of_require
  key _ := r.primaryKey_of_mem
  auxiliary := rfl

end Answers

end EntityStore
