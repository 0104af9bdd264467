import EntityStore.CommandLine
import EntityStore.Proofs.Codec.Schema
import EntityStore.Proofs.Json.Exact

/-!
Files of models are read back from what is written of the models, and the models that are read need
the same tables. The numerals of a file have to be read exactly for that: a bound that is missed
makes another column.
-/
open EntityStore.Field

namespace EntityStore

/-- Whether the numbers in the document of a field are read exactly, and its default is not too
deep to stand in a file of models. -/
structure Field.IsExact (f : Field) : Prop where
  default : ∀ v ∈ f.default, v.IsExact 122
  max : ∀ x ∈ f.max, (Number.float x).ReadsExactly

namespace ModelFile

def document (schemas : List Schema) : Json :=
  .obj [("models", .arr (schemas.map Schema.toJson))]

variable {path text : String} {schemas : List Schema} {s : Schema} {f : Field} {v : Json}

theorem schemas?_eq (h : document? (format path) text = some v) :
    schemas? path text = (v.fields? (format path) ["models"]).bind fun r =>
      r.defaulted? ["models"] [] (Schema.listOfDocument? (format path)) := by
  rw [schemas?, h]
  rfl

/-- However the document has been written. -/
theorem schemas?_of_document? (hcanonical : ∀ s ∈ schemas, s.IsCanonical)
    (h : document? (format path) text = some (document schemas)) :
    schemas? path text = some (schemas.map Schema.readBack) := by
  have hmodels : Schema.listOfDocument? (format path) (.arr (schemas.map Schema.toJson)) =
      some (schemas.map Schema.readBack) :=
    Json.array?_map_of fun s hs => Schema.ofDocument?_toJson _ (hcanonical s hs)
  simp [schemas?_eq h, document, Json.fields?, Record.defaulted?, Record.member?, hmodels]

section Parts

theorem isExact_relation (relation : Relation) : relation.toJson.IsExact 1 := by
  refine Json.isExact_obj (List.forall_mem_append.mpr ⟨?_, ?_⟩)
  · exact List.forall_mem_cons.mpr ⟨Json.isExact_leaf rfl rfl 0,
      List.forall_mem_singleton.mpr (Json.isExact_leaf rfl rfl 0)⟩
  · split
    · exact List.forall_mem_singleton.mpr (Json.isExact_leaf rfl rfl 0)
    · exact List.forall_mem_nil _

theorem isExact_maxLength (hcanonical : f.IsCanonical) :
    ∀ n ∈ f.maxLength, (Json.ofNat n).IsExact 1 := by
  intro n hn
  have hle : n ≤ 0xFFFFFFFF := hcanonical.maxLength n hn
  exact ⟨List.forall_mem_singleton.mpr (Json.readsExactly_int (by omega) (by omega)),
    Nat.zero_le _⟩

/-- What stands in the document of a field: its default, its bound, and else only what is read
exactly. -/
theorem part_cases (hcanonical : f.IsCanonical) : ∀ p ∈ f.parts, ∀ v ∈ p.2,
    v ∈ f.default ∨ (∃ x ∈ f.max, v = .num (.float x)) ∨ v.IsExact 1 := by
  have hexact : ∀ o : Option Json, (∀ v ∈ o, v.IsExact 1) → ∀ v ∈ o,
      v ∈ f.default ∨ (∃ x ∈ f.max, v = .num (.float x)) ∨ v.IsExact 1 :=
    fun _ h v hv => .inr (.inr (h v hv))
  have hwritten : ∀ {α : Type} (write : α → Json) (o : Option α),
      (∀ x ∈ o, (write x).IsExact 1) → ∀ v ∈ o.map write, v.IsExact 1 := by
    rintro α write o h v hv
    obtain ⟨x, hx, rfl⟩ := Option.map_eq_some_iff.mp hv
    exact h x hx
  have hflag : ∀ b : Bool, ∀ v ∈ (if b then some (.bool true) else none : Option Json),
      v.IsExact 1 := by
    intro b v hv
    cases b with
    | false => cases hv
    | true =>
      cases hv
      exact Json.isExact_leaf rfl rfl 1
  have hword : ∀ t : String, ∀ v ∈ some (Json.str t), v.IsExact 1 := by
    rintro t _ ⟨⟩
    exact Json.isExact_leaf rfl rfl 1
  simp only [Field.parts, List.forall_mem_cons]
  refine ⟨fun v hv => .inl hv, hexact _ (hwritten _ _ fun t _ => Json.isExact_leaf rfl rfl 1), ?_,
    hexact _ (hwritten _ _ (isExact_maxLength hcanonical)), hexact _ (hflag _),
    hexact _ (hword _), hexact _ (hflag _), hexact _ (hwritten _ _ fun r _ => isExact_relation r),
    hexact _ (hflag _), hexact _ (hword _), hexact _ (hflag _), List.forall_mem_nil _⟩
  intro v hv
  obtain ⟨x, hx, rfl⟩ := Option.map_eq_some_iff.mp hv
  exact .inr (.inl ⟨x, hx, by rw [Json.ofFloat, if_pos (hcanonical.max x hx)]⟩)

theorem exists_part {m : String × Json} (h : m ∈ written f.parts) :
    ∃ p ∈ f.parts, m.2 ∈ p.2 := by
  obtain ⟨p, hp, hm⟩ := List.mem_filterMap.mp h
  obtain ⟨v, hv, rfl⟩ := Option.map_eq_some_iff.mp hm
  exact ⟨p, hp, hv⟩

/-- A field stands inside the file, the list of the models, a model and the list of its fields. -/
theorem isExact_field (hcanonical : f.IsCanonical) (h : f.IsExact) : f.toJson.IsExact 123 := by
  rw [toJson_eq_written]
  refine Json.isExact_obj fun m hm => ?_
  obtain ⟨p, hp, hv⟩ := exists_part hm
  rcases part_cases hcanonical p hp m.2 hv with hdefault | ⟨x, hx, hmax⟩ | hexact
  · exact h.default _ hdefault
  · rw [hmax]
    exact ⟨List.forall_mem_singleton.mpr (h.max x hx), Nat.zero_le _⟩
  · exact hexact.mono (by decide)

theorem isExact_document (h : ∀ s ∈ schemas, ∀ f ∈ s.fields, f.IsCanonical ∧ f.IsExact) :
    (document schemas).IsExact Json.maxDepth := by
  refine Json.isExact_obj (List.forall_mem_singleton.mpr (Json.isExact_arr ?_))
  refine List.forall_mem_map.mpr fun s hs => Json.isExact_obj (List.forall_mem_cons.mpr ⟨?_, ?_⟩)
  · refine Json.isExact_arr (List.forall_mem_map.mpr fun f hf => ?_)
    exact isExact_field (h s hs f hf).1 (h s hs f hf).2
  · exact List.forall_mem_singleton.mpr (Json.isExact_leaf rfl rfl _)

theorem isFinite_field (hcanonical : f.IsCanonical) : ∀ n ∈ f.toJson.numbers, n.IsFinite := by
  rw [toJson_eq_written, Json.numbers, Json.numbersOfMembers_eq_flatMap]
  intro n hn
  obtain ⟨m, hm, hn⟩ := List.mem_flatMap.mp hn
  obtain ⟨p, hp, hv⟩ := exists_part hm
  rcases part_cases hcanonical p hp m.2 hv with hdefault | ⟨x, hx, hmax⟩ | hexact
  · exact (hcanonical.default _ hdefault).isFinite_of_mem_numbers n hn
  · rw [hmax] at hn
    rw [List.mem_singleton.mp hn]
    exact hcanonical.max x hx
  · exact Json.isFinite_of_readsExactly (hexact.numbers n hn)

theorem isFinite_document (hcanonical : ∀ s ∈ schemas, s.IsCanonical) :
    ∀ n ∈ (document schemas).numbers, n.IsFinite := by
  intro n hn
  simp only [document, Json.numbers, Json.numbersOfMembers, Json.numbersOfItems_eq_flatMap,
    List.append_nil, List.mem_flatMap, List.mem_map] at hn
  obtain ⟨_, ⟨s, hs, rfl⟩, hn⟩ := hn
  simp only [Schema.toJson, Json.numbers, Json.numbersOfMembers, Json.numbersOfItems_eq_flatMap,
    List.append_nil, List.mem_flatMap, List.mem_map] at hn
  obtain ⟨_, ⟨f, hf, rfl⟩, hn⟩ := hn
  exact isFinite_field (hcanonical s hs f hf) n hn

end Parts

section Wanted

variable {steps : List Json.Step} {p : Part}

theorem part?_item (h : outline.part? steps = some p) (i : Nat) :
    outline.part? (.item i :: steps) = p.item? i := by
  rw [Json.Outline.part?, h]
  rfl

theorem part?_member (h : outline.part? steps = some p) (key : String) :
    outline.part? (.member key :: steps) = p.member? key := by
  rw [Json.Outline.part?, h]
  rfl

theorem wants_of_part? (h : outline.part? steps = some p) : outline.wants steps = true := by
  rw [Json.Outline.wants, h]
  rfl

/-- Fields are read as a whole. -/
theorem wanted_whole (v : Json) : ∀ steps, outline.part? steps = some .whole →
    Json.Wanted outline.wants steps v := by
  induction v using Json.induction with
  | null | bool | num | str => exact fun steps h => .leaf (wants_of_part? h) rfl
  | arr items ih =>
    exact fun steps h => .arr (wants_of_part? h) fun i v hv =>
      ih v (List.mem_of_getElem? hv) _ (part?_item h i)
  | obj members ih =>
    exact fun steps h => .obj (wants_of_part? h) fun m hm => ih m hm _ (part?_member h m.1)

theorem wanted_document (schemas : List Schema) :
    Json.Wanted outline.wants [] (document schemas) := by
  refine .obj rfl (List.forall_mem_singleton.mpr (.arr rfl fun i v hv => ?_))
  rw [List.getElem?_map] at hv
  obtain ⟨s, -, rfl⟩ := Option.map_eq_some_iff.mp hv
  exact .obj rfl (List.forall_mem_cons.mpr ⟨wanted_whole _ _ rfl,
    List.forall_mem_singleton.mpr (wanted_whole _ _ rfl)⟩)

end Wanted

section Text

/-- What the text of the document is read as. -/
theorem document?_text (hpath : format path = .json) (hcanonical : ∀ s ∈ schemas, s.IsCanonical) :
    document? (format path) (document schemas).text =
      (document schemas).reread? Number.reread? Json.maxDepth := by
  rw [hpath, document?]
  exact Json.parseWanted?_printed (isFinite_document hcanonical) (wanted_document schemas)

theorem optional?_of_ofJson? {r : Record} (h : Field.ofJson? (.obj r) = some f) :
    r.optional? ["default"] (fun v => some v.canonical) = some f.default ∧
      r.optional? ["max"] Json.float? = some f.max := by
  simp only [Field.ofJson?, Json.members?, Option.bind_eq_bind, Option.bind_some,
    Option.bind_eq_some_iff, Option.some.injEq] at h
  obtain ⟨_, -, _, -, _, -, _, -, _, -, _, -, default, hdefault, _, -, max, hmax, _, -, _, -,
    rfl⟩ := h
  exact ⟨hdefault, hmax⟩

/-- A member that is there is read of its value, as that is read. -/
theorem read_of_optional? {α : Type} {key : String} {r : Record} {room : Nat}
    {read : Json → Option α} {found : Option α} {w : Json}
    (hr : Json.rereadMembers? Number.reread? (written f.parts) room = some r)
    (hpart : f.parts.filter (fun p => [key].contains p.1) = [(key, some w)])
    (h : r.optional? [key] read = some found) :
    ∃ w', w.reread? Number.reread? room = some w' ∧ Json.nullable? read w' = some found := by
  obtain ⟨w', hw', hmember⟩ := Json.member?_reread hr (member?_written hpart)
  rw [Record.optional?, Record.defaulted?, hmember] at h
  exact ⟨w', hw', h⟩

/-- A default that is no null is read back but for its form. -/
theorem canonical_of_nullable? {w w' : Json} (hnull : w ≠ .null)
    (h : Json.nullable? (fun v => some v.canonical) w' =
      some ((some w).filter fun v => !v.isNull)) : w'.canonical = w := by
  have hkept : (some w).filter (fun v => !v.isNull) = some w := by
    cases w with
    | null => exact absurd rfl hnull
    | _ => rfl
  rw [hkept] at h
  cases w' with
  | null => cases h
  | _ => exact Option.some.inj (Option.some.inj h)

/-- Where the field is read back, its default and its bound are. -/
theorem isExact_of_field (hcanonical : f.IsCanonical)
    (hreread : f.toJson.reread? Number.reread? 123 = some v)
    (hread : Field.ofJson? v = some f.readBack) : f.IsExact := by
  rw [toJson_eq_written] at hreread
  obtain ⟨ws, hws, rfl⟩ := Option.map_eq_some_iff.mp hreread
  obtain ⟨hdefault, hmax⟩ := optional?_of_ofJson? hread
  constructor
  · intro w hw
    have hpart : f.parts.filter (fun p => ["default"].contains p.1) = [("default", some w)] := by
      rw [← Option.mem_def.mp hw]
      rfl
    obtain ⟨w', hw', hfound⟩ := read_of_optional? hws hpart hdefault
    by_cases hnull : w = .null
    · subst hnull
      exact Json.isExact_leaf rfl rfl _
    · rw [Field.readBack, Option.mem_def.mp hw] at hfound
      refine Json.isExact_of_reread? (hcanonical.default w hw) ?_
      rw [hw', Option.map_some, canonical_of_nullable? hnull hfound]
  · intro x hx
    have hpart : f.parts.filter (fun p => ["max"].contains p.1) =
        [("max", some (.num (.float x)))] := by
      have hfinite : Json.ofFloat x = .num (.float x) := if_pos (hcanonical.max x hx)
      rw [← hfinite, ← Option.map_some, ← Option.mem_def.mp hx]
      rfl
    obtain ⟨w', hw', hfound⟩ := read_of_optional? hws hpart hmax
    obtain ⟨m, hm, rfl⟩ := Option.map_eq_some_iff.mp hw'
    obtain ⟨y, rfl⟩ := Number.float_of_reread? (hcanonical.max x hx) hm
    have hsame : some y = f.max := Option.some.inj hfound
    rw [Option.mem_def.mp hx] at hsame
    rw [Number.ReadsExactly, hm, Option.some.inj hsame]

theorem fields_of_model {format : Format} (hreread : s.toJson.reread? Number.reread? 125 = some v)
    (hread : Schema.ofDocument? format v = some s.readBack) :
    ∀ f ∈ s.fields, ∃ w, f.toJson.reread? Number.reread? 123 = some w ∧
      Field.ofJson? w = some f.readBack := by
  have hmodel : s.toJson.reread? Number.reread? 125 =
      (Json.rereadItems? Number.reread? (s.fields.map Field.toJson) 123).map fun items =>
        .obj [("fields", .arr items), ("name", .str s.name)] := by
    simp only [Schema.toJson, Json.reread?, Json.rereadMembers?]
    cases Json.rereadItems? Number.reread? (s.fields.map Field.toJson) 123 <;> rfl
  rw [hmodel] at hreread
  obtain ⟨items, hitems, rfl⟩ := Option.map_eq_some_iff.mp hreread
  have hfields : Json.array? Field.ofJson? (.arr items) = some (s.fields.map Field.readBack) := by
    cases hlist : Json.array? Field.ofJson? (.arr items) with
    | none => simp [Schema.ofDocument?, Json.fields?, Record.required?, Record.defaulted?,
        Record.member?, hlist] at hread
    | some fields =>
      have hmodel : some { name := s.name, fields := fields } = some s.readBack := by
        simpa [Schema.ofDocument?, Json.fields?, Record.required?, Record.defaulted?,
          Record.member?, Json.string?, hlist] using hread
      exact congrArg some (congrArg Schema.fields (Option.some.inj hmodel))
  exact Json.exists_of_array? hitems hfields

theorem models_of_text
    (htext : document? (format path) text =
      (document schemas).reread? Number.reread? Json.maxDepth)
    (hread : schemas? path text = some (schemas.map Schema.readBack)) :
    ∀ s ∈ schemas, ∃ v, s.toJson.reread? Number.reread? 125 = some v ∧
      Schema.ofDocument? (format path) v = some s.readBack := by
  have hdocument : (document schemas).reread? Number.reread? Json.maxDepth =
      (Json.rereadItems? Number.reread? (schemas.map Schema.toJson) 125).map fun items =>
        .obj [("models", .arr items)] := by
    simp only [document, Json.maxDepth, Json.reread?, Json.rereadMembers?]
    cases Json.rereadItems? Number.reread? (schemas.map Schema.toJson) 125 <;> rfl
  rw [hdocument] at htext
  cases hitems : Json.rereadItems? Number.reread? (schemas.map Schema.toJson) 125 with
  | none =>
    rw [hitems] at htext
    rw [schemas?, htext] at hread
    cases hread
  | some items =>
    rw [hitems] at htext
    have hmodels : Schema.listOfDocument? (format path) (.arr items) =
        some (schemas.map Schema.readBack) := by
      rw [schemas?_eq htext] at hread
      simpa [Json.fields?, Record.defaulted?, Record.member?] using hread
    exact Json.exists_of_array? hitems hmodels

/-- The models are read back from the text of their document exactly when all their fields are
exact. -/
theorem schemas?_text_iff (hpath : format path = .json)
    (hcanonical : ∀ s ∈ schemas, s.IsCanonical) :
    schemas? path (document schemas).text = some (schemas.map Schema.readBack) ↔
      ∀ s ∈ schemas, ∀ f ∈ s.fields, f.IsExact := by
  have htext := document?_text hpath hcanonical
  constructor
  · intro h s hs f hf
    obtain ⟨v, hv, hread⟩ := models_of_text htext h s hs
    obtain ⟨w, hw, hfield⟩ := fields_of_model hv hread f hf
    exact isExact_of_field (hcanonical s hs f hf) hw hfield
  · intro h
    have hexact := isExact_document fun s hs f hf => ⟨hcanonical s hs f hf, h s hs f hf⟩
    refine schemas?_of_document? hcanonical (htext.trans ?_)
    exact Json.reread?_eq_self hexact.numbers hexact.depth

end Text

end ModelFile

/-- Exactly the fields in canonical form are read back from their documents; a default of null is
none behind it, and every later stage treats the field that is read as the one that was written. So
models are read back from every file whose document lists them, and from the text of the document
exactly when its numerals are read exactly. They become a registry when the models do that were
written, and the statements that make the tables are the same. -/
theorem models_read_back (schemas : List Schema) :
    (∀ f : Field, (Field.ofJson? f.toJson = some f.readBack ↔ f.IsCanonical) ∧
      f.readBack.Alike f) ∧
    (∀ path, (∀ s ∈ schemas, s.IsCanonical) →
      (∀ text, ModelFile.document? (ModelFile.format path) text =
          some (ModelFile.document schemas) →
        ModelFile.schemas? path text = some (schemas.map Schema.readBack)) ∧
      (ModelFile.format path = .json →
        (ModelFile.schemas? path (ModelFile.document schemas).text =
          some (schemas.map Schema.readBack) ↔ ∀ s ∈ schemas, ∀ f ∈ s.fields, f.IsExact))) ∧
    (∀ (s : Schema) (d : Dialect), s.readBack.tables d = s.tables d) ∧
    ∀ r, Registry.ofSchemas schemas = .ok r →
      ∃ r', Registry.ofSchemas (schemas.map Schema.readBack) = .ok r' ∧
        ∀ d, CommandLine.statementLines r' d = CommandLine.statementLines r d := by
  refine ⟨fun f => ⟨Field.ofJson?_toJson_iff, f.alike_readBack⟩, fun path hcanonical =>
    ⟨fun text h => ModelFile.schemas?_of_document? hcanonical h, fun hpath =>
      ModelFile.schemas?_text_iff hpath hcanonical⟩,
    fun s d => s.tables_readBack d, fun r h => ?_⟩
  obtain ⟨r', hr', htables⟩ := Registry.exists_readBack h
  refine ⟨r', hr', fun d => ?_⟩
  rw [CommandLine.statementLines, CommandLine.statementLines, Registry.syncCommands,
    Registry.syncCommands, htables]

namespace Sample

def level : Field :=
  { name := "level", type := .integer, max := some 255, default := some .null }

def marks : Field :=
  { name := "marks", type := .object, default := some (.arr [.ofInt 1, .obj [("a", .null)]]) }

def gauge : Schema := { name := "Gauge", fields := [level, marks] }

def dial : Schema where
  name := "Dial"
  fields := [{ name := "turns", type := .integer, max := some 127.99999999999999 }]

def dialText : String :=
  "\x7b\"models\":[\x7b\"fields\":[\x7b\"max\":127.99999999999999,\"name\":\"turns\"," ++
    "\"type\":\"integer\"\x7d],\"name\":\"Dial\"\x7d]\x7d"

def dialTable : String :=
  "[[models]]\nname = \"Dial\"\n[[models.fields]]\nname = \"turns\"\ntype = \"integer\"\n" ++
    "max = 127.99999999999999\n"

def dialSql (width : String) : String :=
  "CREATE TABLE `Dial` (\n  `id` INT(20) NOT NULL AUTO_INCREMENT,\n  `turns` INT(" ++ width ++
    "),\n  PRIMARY KEY (`id`)\n) ENGINE=InnoDB"

def created (path text : String) : Option (List String) :=
  (ModelFile.schemas? path text).map fun schemas =>
    schemas.map fun s => (s.ownTable .mysql).createSql .mysql

end Sample

open Sample in
/-- The bound of the gauge is read exactly, and so is its default. -/
theorem models_read_back_of_gauge :
    (∀ f ∈ gauge.fields, f.IsCanonical ∧ f.IsExact) ∧
    ModelFile.format "models.json" = .json ∧
    ModelFile.schemas? "models.json" (ModelFile.document [gauge]).text = some [gauge.readBack] ∧
    ∀ d, gauge.readBack.tables d = gauge.tables d := by
  have hbound : Float.isFinite 255 = true ∧ (Number.float 255).ReadsExactly := by decide +kernel
  have hlevel : level.IsCanonical ∧ level.IsExact := by
    refine ⟨⟨?_, nofun, ?_⟩, ⟨?_, ?_⟩⟩
    all_goals rintro _ ⟨⟩
    · exact .null
    · exact hbound.1
    · exact ⟨List.forall_mem_nil _, by decide⟩
    · exact hbound.2
  have hmarks : marks.IsCanonical ∧ marks.IsExact := by
    refine ⟨⟨?_, nofun, nofun⟩, ⟨?_, nofun⟩⟩
    all_goals rintro _ ⟨⟩
    · refine .arr (List.forall_mem_cons.mpr ⟨.int 1, List.forall_mem_singleton.mpr ?_⟩)
      exact .obj (List.pairwise_singleton ..) (List.forall_mem_singleton.mpr .null)
    · exact ⟨List.forall_mem_singleton.mpr (by decide +kernel), by decide⟩
  have hfields : ∀ f ∈ gauge.fields, f.IsCanonical ∧ f.IsExact :=
    List.forall_mem_cons.mpr ⟨hlevel, List.forall_mem_singleton.mpr hmarks⟩
  have hformat : ModelFile.format "models.json" = .json := by decide +kernel
  obtain ⟨-, hfile, htables, -⟩ := models_read_back [gauge]
  have hcanonical : ∀ s ∈ [gauge], s.IsCanonical :=
    List.forall_mem_singleton.mpr fun f hf => (hfields f hf).1
  have hread := ((hfile "models.json" hcanonical).2 hformat).mpr
    (List.forall_mem_singleton.mpr fun f hf => (hfields f hf).2)
  exact ⟨hfields, hformat, hread, htables gauge⟩

open Sample in
/-- The numeral of the bound is read as 128, so the column becomes wider by one digit. The other
format reads it as it is. -/
theorem bound_missed_in_document :
    dial.IsCanonical ∧ (ModelFile.document [dial]).text = dialText ∧
    created "models.json" dialText = some [dialSql "8"] ∧
    (dial.ownTable .mysql).createSql .mysql = dialSql "7" ∧
    created "models.toml" dialTable = some [dialSql "7"] ∧
    ¬ ∀ s : Schema, s.IsCanonical → ∃ read,
      ModelFile.schemas? "models.json" (ModelFile.document [s]).text = some [read] ∧
        ∀ d, read.tables d = s.tables d := by
  have hcanonical : dial.IsCanonical := by
    have hbound : Float.isFinite 127.99999999999999 = true := by decide +kernel
    refine List.forall_mem_singleton.mpr ⟨nofun, nofun, ?_⟩
    rintro _ ⟨⟩
    exact hbound
  have htext : (ModelFile.document [dial]).text = dialText := by decide +kernel
  have hwider : created "models.json" dialText = some [dialSql "8"] := by decide +kernel
  have hcolumn : (dial.ownTable .mysql).createSql .mysql = dialSql "7" := by decide +kernel
  refine ⟨hcanonical, htext, hwider, hcolumn, by decide +kernel, fun hall => ?_⟩
  obtain ⟨read, hread, htables⟩ := hall dial hcanonical
  have hown : read.ownTable .mysql = dial.ownTable .mysql :=
    (List.cons.inj (htables .mysql)).1
  rw [htext] at hread
  rw [created, hread, Option.map_some, List.map_singleton, hown, hcolumn] at hwider
  exact absurd hwider (by decide +kernel)

end EntityStore
