import EntityStore.Proofs.Registration

/-!
The directory of a registry, made in one pass over its models: the place and the key of each name
are noted, and the tables made for the fields are put behind those of the models before. The fields
are checked when all names are known, so that a relation may lead to a model that comes later. The
notes stay consistent with each model added, so the directory answers as the registry does.
-/
namespace EntityStore

structure Directory where
  schemas : List Schema := []
  places : List (String × Nat) := []
  keys : List (String × String) := []
  auxiliary : List Schema := []

namespace Directory

def names (d : Directory) : List String :=
  d.places.map Prod.fst

def note (d : Directory) (s : Schema) : Directory where
  schemas := d.schemas ++ [s]
  places := (s.name, d.schemas.length) :: d.places
  keys := (s.name, s.primaryKey) :: d.keys
  auxiliary := d.auxiliary ++ s.auxiliary

def add (d : Directory) (s : Schema) : Except ModelError Directory :=
  if s.name ∈ d.names then .error (.registeredTwice s.name)
  else if 1 < s.primaryFields.length then .error (.severalKeys s.name)
  else .ok (d.note s)

def addAll (d : Directory) : List Schema → Except ModelError Directory
  | [] => .ok d
  | s :: rest => do (← d.add s).addAll rest

def ofSchemas (schemas : List Schema) : Except ModelError Directory := do
  let d ← addAll {} schemas
  Schema.checkFields d.names d.schemas
  .ok d

def schema? (d : Directory) (model : String) : Option Schema := do
  d.schemas[← d.places.lookup model]?

/-- The key of a model, also of one that is not registered. -/
def primaryKey (d : Directory) (model : String) : String :=
  (d.keys.lookup model).getD Schema.defaultKey

end Directory

structure Directory.Agrees (d : Directory) (r : Registry) : Prop where
  order : d.schemas = r.schemas
  schema : ∀ model, d.schema? model = r.schema? model
  key : ∀ model, d.primaryKey model = r.primaryKey model
  auxiliary : d.auxiliary = r.auxiliary

namespace Directory

variable {d d' : Directory} {s : Schema} {schemas : List Schema} {model : String}

theorem lookup_eq_none_iff {β : Type} {notes : List (String × β)} :
    notes.lookup model = none ↔ model ∉ notes.map Prod.fst := by
  rw [List.lookup_eq_none_iff]
  constructor
  · rintro h hmem
    obtain ⟨entry, hentry, rfl⟩ := List.mem_map.mp hmem
    simpa using h entry hentry
  · intro h entry hentry
    exact bne_iff_ne.mpr fun heq => h (heq ▸ List.mem_map_of_mem hentry)

theorem lookup_cons_of_ne {β : Type} {notes : List (String × β)} {name : String} {noted : β}
    (h : model ≠ name) : ((name, noted) :: notes).lookup model = notes.lookup model := by
  rw [List.lookup_cons, beq_eq_false_iff_ne.mpr h]

structure Consistent (d : Directory) : Prop where
  distinct : (d.schemas.map Schema.name).Nodup
  names : ∀ model, model ∈ d.names ↔ model ∈ d.schemas.map Schema.name
  places : ∀ model i, d.places.lookup model = some i →
    ∃ s, d.schemas[i]? = some s ∧ s.name = model
  keyNames : d.keys.map Prod.fst = d.names
  keys : ∀ s ∈ d.schemas, d.keys.lookup s.name = some s.primaryKey
  auxiliary : d.auxiliary = d.schemas.flatMap Schema.auxiliary

theorem consistent_empty : Consistent {} where
  distinct := List.nodup_nil
  names _ := Iff.rfl
  places _ _ := nofun
  keyNames := rfl
  keys _ := nofun
  auxiliary := rfl

/-- A model with a new name leaves the notes of the others as they are. -/
theorem Consistent.note (h : d.Consistent) (hnew : s.name ∉ d.names) : (d.note s).Consistent where
  distinct := by
    have hname : s.name ∉ d.schemas.map Schema.name := mt (h.names s.name).mpr hnew
    rw [Directory.note, List.map_append, List.map_singleton, List.nodup_append]
    refine ⟨h.distinct, List.nodup_singleton _, fun a ha b hb heq => ?_⟩
    rw [List.mem_singleton.mp hb] at heq
    exact hname (heq ▸ ha)
  names model := by
    have hbefore := h.names model
    simp only [Directory.note, Directory.names, List.map_cons, List.mem_cons, List.map_append,
      List.mem_append, List.map_nil, List.not_mem_nil, or_false] at hbefore ⊢
    rw [hbefore, or_comm]
  places model i hplace := by
    rw [Directory.note, List.lookup_cons] at hplace
    split at hplace
    · next hmodel =>
      cases hplace
      exact ⟨s, List.getElem?_concat_length, (eq_of_beq hmodel).symm⟩
    · obtain ⟨t, ht, hname⟩ := h.places model i hplace
      exact ⟨t, List.getElem?_append_left (List.getElem?_eq_some_iff.mp ht).1 ▸ ht, hname⟩
  keyNames := congrArg (s.name :: ·) h.keyNames
  keys t ht := by
    rcases List.mem_append.mp ht with hbefore | hlast
    · have hne : t.name ≠ s.name := by
        intro heq
        exact hnew (heq ▸ (h.names t.name).mpr (List.mem_map_of_mem hbefore))
      exact (lookup_cons_of_ne hne).trans (h.keys t hbefore)
    · rw [List.mem_singleton.mp hlast]
      exact List.lookup_cons_self
  auxiliary := by
    simp [Directory.note, h.auxiliary]

theorem add_eq_ok : d.add s = .ok d' ↔
    s.name ∉ d.names ∧ s.primaryFields.length ≤ 1 ∧ d' = d.note s := by
  unfold add
  split
  · next hmem => simp [hmem]
  · next hnew =>
    split
    · next hkeys =>
      have hmany : ¬ s.primaryFields.length ≤ 1 := by omega
      simp [hmany]
    · next hkeys =>
      have hone : s.primaryFields.length ≤ 1 := by omega
      simp [hnew, hone, eq_comm]

theorem Consistent.add (h : d.Consistent) (hadd : d.add s = .ok d') : d'.Consistent := by
  obtain ⟨hnew, -, rfl⟩ := add_eq_ok.mp hadd
  exact h.note hnew

theorem Consistent.addAll (h : d.Consistent) (hrun : d.addAll schemas = .ok d') :
    d'.Consistent := by
  induction schemas generalizing d with
  | nil =>
    cases hrun
    exact h
  | cons s rest ih =>
    obtain ⟨next, hadd, hrest⟩ := bind_eq_ok.mp hrun
    exact ih (h.add hadd) hrest

/-- One pass refuses what the check of names and keys refuses, and else notes every model. -/
theorem addAll_eq :
    d.addAll schemas =
      (Schema.checkModelsFrom d.names schemas).map fun _ => schemas.foldl note d := by
  induction schemas generalizing d with
  | nil => rfl
  | cons s rest ih =>
    rw [Directory.addAll, Directory.add, Schema.checkModelsFrom]
    split
    · rfl
    · split
      · rfl
      · exact ih

theorem schemas_foldl_note : (schemas.foldl note d).schemas = d.schemas ++ schemas := by
  induction schemas generalizing d with
  | nil => simp
  | cons s rest ih => rw [List.foldl_cons, ih, Directory.note, List.append_assoc]; rfl

theorem checkField_congr {models models' : List String}
    (h : ∀ model, model ∈ models ↔ model ∈ models') (f : Field) :
    Schema.checkField models model f = Schema.checkField models' model f := by
  unfold Schema.checkField
  split
  · rfl
  · exact if_congr (h _) rfl rfl
  all_goals rfl

theorem checkFields_congr {models models' : List String}
    (h : ∀ model, model ∈ models ↔ model ∈ models') :
    Schema.checkFields models schemas = Schema.checkFields models' schemas := by
  induction schemas with
  | nil => rfl
  | cons s rest ih =>
    rw [Schema.checkFields, Schema.checkFields, ih, funext (checkField_congr h)]

/-- The directory is made of the models that pass the check. -/
theorem ofSchemas_eq :
    ofSchemas schemas = (Schema.check schemas).map fun _ => schemas.foldl note {} := by
  have hadd : addAll {} schemas =
      (Schema.checkModelsFrom [] schemas).map fun _ => schemas.foldl note {} := addAll_eq
  rw [ofSchemas, Schema.check]
  cases hmodels : Schema.checkModelsFrom [] schemas with
  | error e =>
    rw [hadd, hmodels]
    rfl
  | ok _ =>
    rw [hmodels] at hadd
    have hconsistent : (schemas.foldl note {}).Consistent := consistent_empty.addAll hadd
    have hschemas : (schemas.foldl note {}).schemas = schemas := schemas_foldl_note
    rw [hadd]
    change (Schema.checkFields (schemas.foldl note {}).names (schemas.foldl note {}).schemas >>=
      fun _ => _) = (Schema.checkFields (schemas.map Schema.name) schemas).map _
    rw [checkFields_congr hconsistent.names, hschemas]
    cases Schema.checkFields (schemas.map Schema.name) schemas <;> rfl

theorem ofSchemas_eq_error_iff {e : ModelError} :
    ofSchemas schemas = .error e ↔ Registry.ofSchemas schemas = .error e := by
  rw [Registry.ofSchemas_eq_error_iff, ofSchemas_eq]
  cases Schema.check schemas <;> simp [Except.map]

theorem Consistent.schema?_eq (h : d.Consistent) (model : String) :
    d.schema? model = d.schemas.find? fun s => s.name == model := by
  cases hplace : d.places.lookup model with
  | none =>
    have hmissing : d.schemas.find? (fun s => s.name == model) = none := by
      refine List.find?_eq_none.mpr fun s hs hname => ?_
      refine lookup_eq_none_iff.mp hplace ((h.names model).mpr (List.mem_map.mpr ⟨s, hs, ?_⟩))
      exact eq_of_beq hname
    rw [hmissing, schema?, hplace]
    rfl
  | some i =>
    obtain ⟨s, hs, rfl⟩ := h.places model i hplace
    rw [Schema.find?_of_mem h.distinct (List.mem_of_getElem? hs), ← hs, schema?, hplace]
    rfl

theorem Consistent.primaryKey_eq (h : d.Consistent) {r : Registry} (hr : d.schemas = r.schemas)
    (model : String) : d.primaryKey model = r.primaryKey model := by
  rw [primaryKey, Registry.primaryKey]
  cases hfind : r.schema? model with
  | some s =>
    obtain rfl := Registry.schema?_name hfind
    rw [h.keys s (hr ▸ Registry.schema?_mem hfind)]
    rfl
  | none =>
    have hmissing : model ∉ d.keys.map Prod.fst := by
      rw [h.keyNames, h.names, hr]
      intro hmem
      obtain ⟨s, hs, rfl⟩ := List.mem_map.mp hmem
      simpa using List.find?_eq_none.mp hfind s hs
    rw [lookup_eq_none_iff.mpr hmissing]
    rfl

theorem exists_agrees {r : Registry} (h : Registry.ofSchemas schemas = .ok r) :
    ∃ d, ofSchemas schemas = .ok d ∧ d.Agrees r := by
  obtain ⟨hcheck, hr⟩ := Registry.ofSchemas_eq_ok_iff.mp h
  obtain ⟨⟨⟩, hmodels, -⟩ := bind_eq_ok.mp hcheck
  have hconsistent : (schemas.foldl note {}).Consistent :=
    consistent_empty.addAll (addAll_eq.trans (by rw [show names {} = [] from rfl, hmodels]; rfl))
  have hschemas : (schemas.foldl note {}).schemas = r.schemas := schemas_foldl_note.trans hr.symm
  refine ⟨schemas.foldl note {}, by rw [ofSchemas_eq, hcheck]; rfl, hschemas, fun model => ?_,
    hconsistent.primaryKey_eq hschemas, ?_⟩
  · rw [hconsistent.schema?_eq, hschemas, Registry.schema?]
  · rw [hconsistent.auxiliary, hschemas, Registry.auxiliary]

end Directory

/-- The lists of models that become a registry are those that fit together, in whatever order they
stand. A refusal is put down to the request and says of the models what is true of them. A registry
answers for its models, and the directory made in one pass refuses and answers as it does. -/
theorem registered_iff_fitTogether (schemas : List Schema) :
    ((∃ r, Registry.ofSchemas schemas = .ok r) ↔ Schema.FitTogether schemas) ∧
    (∀ e, Registry.ofSchemas schemas = .error e → e.toFailure.IsRefusal ∧ e.TrueOf schemas) ∧
    (∀ r, Registry.ofSchemas schemas = .ok r → r.Serves schemas) ∧
    (∀ e, Directory.ofSchemas schemas = .error e ↔ Registry.ofSchemas schemas = .error e) ∧
    ∀ r, Registry.ofSchemas schemas = .ok r →
      ∃ d, Directory.ofSchemas schemas = .ok d ∧ d.Agrees r := by
  refine ⟨?_, fun e h => ⟨⟨rfl, nofun⟩, ?_⟩, fun r h => ?_,
    fun e => Directory.ofSchemas_eq_error_iff, fun r h => Directory.exists_agrees h⟩
  · rw [← Schema.check_eq_ok_iff]
    constructor
    · rintro ⟨r, h⟩
      exact (Registry.ofSchemas_eq_ok_iff.mp h).1
    · intro h
      exact ⟨⟨schemas, h⟩, Registry.ofSchemas_eq_ok_iff.mpr ⟨h, rfl⟩⟩
  · exact Schema.trueOf_of_check (Registry.ofSchemas_eq_error_iff.mp h)
  · obtain ⟨-, rfl⟩ := Registry.ofSchemas_eq_ok_iff.mp h
    exact r.serves

/-- The cart leads to the kit behind it, and the kit has a key of its own and a list of labels. -/
theorem registered_with_later_model :
    let cart : Schema := { name := "Cart", fields := [
      { name := "kit", type := .relation,
        relation := some { model := "Kit", kind := .oneToOne } }] }
    let kit : Schema := { name := "Kit", fields := [
      { name := "code", type := .text, primary := true },
      { name := "labels", type := .list, items := some .text }] }
    ∃ r d, Registry.ofSchemas [cart, kit] = .ok r ∧ r.Serves [cart, kit] ∧
      Directory.ofSchemas [cart, kit] = .ok d ∧ d.Agrees r ∧
      d.primaryKey "Kit" = "code" ∧ d.auxiliary.map Schema.name = ["KitLabelsList"] := by
  intro cart kit
  obtain ⟨haccepted, -, hserves, -, hagrees⟩ := registered_iff_fitTogether [cart, kit]
  obtain ⟨r, hr⟩ := haccepted.mpr (Schema.check_eq_ok_iff.mp rfl)
  obtain ⟨d, hd, hsame⟩ := hagrees r hr
  refine ⟨r, d, hr, hserves r hr, hd, hsame, ?_, ?_⟩
  · rw [hsame.key]
    exact (hserves r hr).key kit (by simp)
  · rw [hsame.auxiliary, (hserves r hr).auxiliary]
    rfl

end EntityStore
