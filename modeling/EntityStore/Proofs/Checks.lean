import EntityStore.Schema

/-!
Checks that come one behind the other: what passes them all passes each.
-/
namespace EntityStore

theorem bind_eq_ok {ε α β : Type} {e : Except ε α} {f : α → Except ε β} {y : β} :
    (e >>= f) = .ok y ↔ ∃ x, e = .ok x ∧ f x = .ok y := by
  constructor
  · intro h
    cases e with
    | error failure => cases h
    | ok x => exact ⟨x, rfl, h⟩
  · rintro ⟨x, rfl, h⟩
    exact h

theorem bind_eq_error {ε α β : Type} {e : Except ε α} {f : α → Except ε β} {failure : ε} :
    (e >>= f) = .error failure ↔ e = .error failure ∨ ∃ x, e = .ok x ∧ f x = .error failure := by
  cases e with
  | error other => simp [bind, Except.bind]
  | ok x => simp [bind, Except.bind]

/-- A check of the members of a list passes where it passes for each of them. -/
theorem forM_eq_ok {ε α : Type} {check : α → Except ε Unit} {xs : List α} :
    xs.forM check = .ok () ↔ ∀ x ∈ xs, check x = .ok () := by
  induction xs with
  | nil => simp [pure, Except.pure]
  | cons x rest ih =>
    change (check x >>= fun _ => rest.forM check) = .ok () ↔ _
    rw [bind_eq_ok, List.forall_mem_cons, ← ih]
    constructor
    · rintro ⟨⟨⟩, hx, hrest⟩
      exact ⟨hx, hrest⟩
    · rintro ⟨hx, hrest⟩
      exact ⟨(), hx, hrest⟩

theorem Schema.checkFields_eq_ok {models : List String} {schemas : List Schema} :
    checkFields models schemas = .ok () ↔
      ∀ s ∈ schemas, ∀ f ∈ s.fields, checkField models s.name f = .ok () := by
  induction schemas with
  | nil => simp [checkFields]
  | cons s rest ih =>
    rw [checkFields, bind_eq_ok, List.forall_mem_cons, ← ih, ← forM_eq_ok]
    constructor
    · rintro ⟨⟨⟩, hs, hrest⟩
      exact ⟨hs, hrest⟩
    · rintro ⟨hs, hrest⟩
      exact ⟨(), hs, hrest⟩

/-- Names differ, from each other and from those before, and no model has two keys. -/
theorem Schema.checkModelsFrom_eq_ok {schemas : List Schema} : ∀ {seen : List String},
    checkModelsFrom seen schemas = .ok () ↔ (schemas.map Schema.name).Nodup ∧
      ∀ s ∈ schemas, s.name ∉ seen ∧ s.primaryFields.length ≤ 1 := by
  induction schemas with
  | nil => simp [checkModelsFrom]
  | cons s rest ih =>
    intro seen
    rw [checkModelsFrom, List.map_cons, List.nodup_cons, List.forall_mem_cons]
    split
    · next hseen => simp [hseen]
    · next hnew =>
      split
      · next hkeys =>
        have hmany : ¬ s.primaryFields.length ≤ 1 := by omega
        simp [hmany]
      · next hkeys =>
        have hone : s.primaryFields.length ≤ 1 := by omega
        rw [ih]
        constructor
        · rintro ⟨hnodup, hrest⟩
          refine ⟨⟨?_, hnodup⟩, ⟨hnew, hone⟩, fun t ht => ?_⟩
          · intro hmem
            obtain ⟨t, ht, hname⟩ := List.mem_map.mp hmem
            exact (hrest t ht).1 (hname ▸ List.mem_cons_self ..)
          · exact ⟨fun h => (hrest t ht).1 (List.mem_cons_of_mem _ h), (hrest t ht).2⟩
        · rintro ⟨⟨hname, hnodup⟩, -, hrest⟩
          refine ⟨hnodup, fun t ht => ⟨fun hmem => ?_, (hrest t ht).2⟩⟩
          rcases List.mem_cons.mp hmem with heq | hseen
          · exact hname (List.mem_map.mpr ⟨t, ht, heq⟩)
          · exact (hrest t ht).1 hseen

theorem Registry.checkModels_eq_ok (r : Registry) :
    (r.schemas.map Schema.name).Nodup ∧ ∀ s ∈ r.schemas, s.primaryFields.length ≤ 1 := by
  obtain ⟨⟨⟩, hmodels, -⟩ := bind_eq_ok.mp r.checked
  obtain ⟨hnames, hkeys⟩ := Schema.checkModelsFrom_eq_ok.mp hmodels
  exact ⟨hnames, fun s hs => (hkeys s hs).2⟩

theorem Registry.names_nodup (r : Registry) : (r.schemas.map Schema.name).Nodup :=
  r.checkModels_eq_ok.1

/-- Every field of a registry's models has passed its check. -/
theorem Registry.checkField_eq_ok (r : Registry) {s : Schema} (hs : s ∈ r.schemas) {f : Field}
    (hf : f ∈ s.fields) :
    Schema.checkField (r.schemas.map Schema.name) s.name f = .ok () := by
  obtain ⟨⟨⟩, -, hfields⟩ := bind_eq_ok.mp r.checked
  exact Schema.checkFields_eq_ok.mp hfields s hs f hf

theorem Registry.schema?_name {r : Registry} {model : String} {s : Schema}
    (h : r.schema? model = some s) : s.name = model := by
  simpa using List.find?_some h

theorem Registry.schema?_mem {r : Registry} {model : String} {s : Schema}
    (h : r.schema? model = some s) : s ∈ r.schemas :=
  List.mem_of_find?_eq_some h

theorem Registry.require_eq_ok {r : Registry} {model : String} {s : Schema} :
    r.require model = .ok s ↔ r.schema? model = some s := by
  unfold require
  cases r.schema? model <;> simp

theorem FieldKind.relation?_of_reference? {kind : FieldKind} {relation : Relation}
    (h : kind.reference? = some relation) : kind.relation? = some relation := by
  cases kind with
  | oneToOne | oneToMany => exact h
  | manyToMany | scalar | list => cases h

/-- Relations lead to models of the registry. -/
theorem Registry.exists_related (r : Registry) {s : Schema} (hs : s ∈ r.schemas) {f : Field}
    (hf : f ∈ s.fields) {relation : Relation} (hrelation : f.kind.relation? = some relation) :
    ∃ t, r.schema? relation.model = some t := by
  have hchecked := r.checkField_eq_ok hs hf
  have htype : f.type = .relation ∧ f.relation = some relation := by
    unfold Field.kind at hrelation
    split at hrelation
    · next t htype ht =>
      split at hrelation <;> cases hrelation <;> exact ⟨htype, ht⟩
    · cases hrelation
    · cases hrelation
  rw [Schema.checkField, htype.1, htype.2] at hchecked
  dsimp only at hchecked
  split at hchecked
  · next hmem =>
    obtain ⟨t, ht, hname⟩ := List.mem_map.mp hmem
    rw [← Option.isSome_iff_exists, Registry.schema?, List.find?_isSome]
    exact ⟨t, ht, by simpa using hname⟩
  · cases hchecked

def Failure.OfServer (f : Failure) : Prop :=
  ∃ message, f.cause = .server message

/-- What was asked for does not fit the models, which the store says in words of its own. -/
structure Failure.IsRefusal (f : Failure) : Prop where
  category : f.category = .validation
  ownWords : ¬ f.OfServer

theorem Registry.isRefusal_of_require {r : Registry} {model : String} {f : Failure}
    (h : r.require model = .error f) : f.IsRefusal := by
  unfold require at h
  split at h
  · cases h
  · cases h
    exact ⟨rfl, nofun⟩

end EntityStore
