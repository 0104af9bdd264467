import EntityStore.Codec.Field
import EntityStore.Proofs.Json.Canonical
import EntityStore.Proofs.Json.Shape
import EntityStore.Table

/-!
Fields are read back from the documents that are written of them, whatever of them is written and
whatever is left out. A default of null is lost on the way, and makes no difference to the columns.
-/
namespace EntityStore

theorem FieldType.ofName?_name (t : FieldType) : ofName? t.name = some t := by
  cases t <;> rfl

theorem RelationKind.ofName?_name (k : RelationKind) : ofName? k.name = some k := by
  cases k <;> rfl

theorem Relation.ofJson?_toJson (r : Relation) : ofJson? r.toJson = some r := by
  obtain ⟨model, kind, weak⟩ := r
  cases weak <;>
    simp [toJson, ofJson?, Json.fields?, Record.required?, Record.defaulted?, Record.member?,
      Json.string?, Json.boolean?, Json.tagged?, Json.tag?, Json.word?, RelationKind.ofName?_name]

namespace Field

/-- The field as it is read back: a default of null is none. -/
def readBack (f : Field) : Field :=
  { f with default := f.default.filter fun v => !v.isNull }

/-- Whether the default is in canonical form, the maximal length fits 32 bits and the bound is
finite. -/
structure IsCanonical (f : Field) : Prop where
  default : ∀ v ∈ f.default, v.IsCanonical
  maxLength : ∀ n ∈ f.maxLength, n ≤ Text.maxUInt32
  max : ∀ x ∈ f.max, x.isFinite = true

section Members

variable {parts : List (String × Option Json)} {names : List String} {key : String}

def written (parts : List (String × Option Json)) : Record :=
  parts.filterMap fun p => p.2.map fun v => (p.1, v)

theorem written_append (first second : List (String × Option Json)) :
    written (first ++ second) = written first ++ written second :=
  List.filterMap_append

theorem setting_eq_written {α : Type} (name : String) (write : α → Json) (x : Option α) :
    setting name write x = written [(name, x.map write)] := by
  cases x <;> rfl

theorem flag_eq_written (name : String) (b : Bool) :
    flag name b = written [(name, if b then some (.bool true) else none)] := by
  cases b <;> rfl

theorem filter_written (names : List String) (parts : List (String × Option Json)) :
    (written parts).filter (fun m => names.contains m.1) =
      written (parts.filter fun p => names.contains p.1) := by
  induction parts with
  | nil => rfl
  | cons p rest ih =>
    obtain ⟨name, value⟩ := p
    simp only [written] at ih ⊢
    cases value <;> by_cases h : names.contains name = true <;>
      simp only [List.filterMap_cons, Option.map_none, Option.map_some, List.filter_cons, h, ih] <;>
      rfl

/-- A member that one part may hold is looked up in that part. -/
theorem member?_written {value : Option Json}
    (h : parts.filter (fun p => names.contains p.1) = [(key, value)]) :
    Record.member? names (written parts) = some value := by
  rw [Record.member?, filter_written, h]
  cases value <;> rfl

theorem required?_written {α : Type} {read : Json → Option α} {v : Json}
    (h : parts.filter (fun p => names.contains p.1) = [(key, some v)]) :
    Record.required? names read (written parts) = read v := by
  simp [Record.required?, member?_written h]

theorem flag?_written {b : Bool} (h : parts.filter (fun p => names.contains p.1) =
      [(key, if b then some (.bool true) else none)]) :
    Record.defaulted? names false Json.boolean? (written parts) = some b := by
  rw [Record.defaulted?, member?_written h]
  cases b <;> rfl

theorem optional?_written {α : Type} {read : Json → Option α} {value : Option Json}
    (h : parts.filter (fun p => names.contains p.1) = [(key, value)]) :
    Record.optional? names read (written parts) =
      (value.map (Json.nullable? read)).getD (some none) := by
  rw [Record.optional?, Record.defaulted?, member?_written h]
  cases value <;> rfl

end Members

section ReadBack

variable {f : Field}

def parts (f : Field) : List (String × Option Json) := [
  ("default", f.default),
  ("items", f.items.map fun t => .str t.name),
  ("max", f.max.map Json.ofFloat),
  ("maxLength", f.maxLength.map Json.ofNat),
  ("multilingual", if f.multilingual then some (.bool true) else none),
  ("name", some (.str f.name)),
  ("primary", if f.primary then some (.bool true) else none),
  ("relation", f.relation.map Relation.toJson),
  ("required", if f.required then some (.bool true) else none),
  ("type", some (.str f.type.name)),
  ("unique", if f.unique then some (.bool true) else none)]

theorem toJson_eq_written (f : Field) : f.toJson = .obj (written f.parts) := by
  have hname : [("name", Json.str f.name)] = written [("name", some (.str f.name))] := rfl
  have htype : [("type", Json.str f.type.name)] = written [("type", some (.str f.type.name))] := rfl
  simp only [toJson, setting_eq_written, flag_eq_written, Option.map_id_fun, id_eq, hname, htype,
    ← written_append]
  rfl

/-- What a default is read as. -/
theorem default?_read (value : Option Json) :
    (value.map (Json.nullable? fun v => some v.canonical)).getD (some none) =
      some ((value.filter fun v => !v.isNull).map Json.canonical) := by
  cases value with
  | none => rfl
  | some v => cases v <;> rfl

theorem max?_read (x : Option Float) :
    ((x.map Json.ofFloat).map (Json.nullable? Json.float?)).getD (some none) =
      some (x.filter Float.isFinite) := by
  cases x with
  | none => rfl
  | some x => cases h : x.isFinite <;> simp [Json.ofFloat, h, Json.nullable?, Json.float?,
      Number.toFloat, Option.filter]

theorem maxLength?_read (n : Option Nat) :
    ((n.map Json.ofNat).map (Json.nullable? (Json.natUpTo? Text.maxUInt32))).getD (some none) =
      if ∀ k ∈ n, k ≤ Text.maxUInt32 then some n else none := by
  cases n with
  | none => simp
  | some n => by_cases h : n ≤ Text.maxUInt32 <;>
      simp [Json.ofNat, Json.nullable?, Json.natUpTo?, h]

theorem relation?_read (relation : Option Relation) :
    ((relation.map Relation.toJson).map (Json.nullable? Relation.ofJson?)).getD (some none) =
      some relation := by
  cases relation with
  | none => rfl
  | some relation =>
    have hread : Json.nullable? Relation.ofJson? relation.toJson =
        (Relation.ofJson? relation.toJson).map some := rfl
    simp [hread, Relation.ofJson?_toJson]

theorem tagged?_name (t : FieldType) :
    Json.tagged? FieldType.ofName? (.str t.name) = some t := by
  simp [Json.tagged?, Json.tag?, Json.word?, FieldType.ofName?_name]

theorem items?_read (items : Option FieldType) :
    ((items.map fun t => .str t.name).map
      (Json.nullable? (Json.tagged? FieldType.ofName?))).getD (some none) = some items := by
  cases items with
  | none => rfl
  | some t => simp [Json.nullable?, tagged?_name]

/-- What is written of a field is read as the field, but for what documents do not hold. -/
theorem ofJson?_toJson_eq (f : Field) : ofJson? f.toJson =
    if ∀ n ∈ f.maxLength, n ≤ Text.maxUInt32 then some { f with
      default := (f.default.filter fun v => !v.isNull).map Json.canonical
      max := f.max.filter Float.isFinite }
    else none := by
  have hname : Record.required? ["name"] Json.string? (written f.parts) =
      Json.string? (.str f.name) := required?_written rfl
  have htype : Record.required? ["type"] (Json.tagged? FieldType.ofName?) (written f.parts) =
      Json.tagged? FieldType.ofName? (.str f.type.name) := required?_written rfl
  have hprimary : Record.defaulted? ["primary"] false Json.boolean? (written f.parts) =
      some f.primary := flag?_written rfl
  have hrequired : Record.defaulted? ["required"] false Json.boolean? (written f.parts) =
      some f.required := flag?_written rfl
  have hunique : Record.defaulted? ["unique"] false Json.boolean? (written f.parts) =
      some f.unique := flag?_written rfl
  have hmultilingual : Record.defaulted? ["multilingual"] false Json.boolean? (written f.parts) =
      some f.multilingual := flag?_written rfl
  have hdefault : Record.optional? ["default"] (fun v => some v.canonical) (written f.parts) =
      (f.default.map (Json.nullable? fun v => some v.canonical)).getD (some none) :=
    optional?_written rfl
  have hlength : Record.optional? ["maxLength", "max_length"] (Json.natUpTo? Text.maxUInt32)
      (written f.parts) = ((f.maxLength.map Json.ofNat).map
        (Json.nullable? (Json.natUpTo? Text.maxUInt32))).getD (some none) := optional?_written rfl
  have hmax : Record.optional? ["max"] Json.float? (written f.parts) =
      ((f.max.map Json.ofFloat).map (Json.nullable? Json.float?)).getD (some none) :=
    optional?_written rfl
  have hrelation : Record.optional? ["relation"] Relation.ofJson? (written f.parts) =
      ((f.relation.map Relation.toJson).map (Json.nullable? Relation.ofJson?)).getD (some none) :=
    optional?_written rfl
  have hitems : Record.optional? ["items"] (Json.tagged? FieldType.ofName?) (written f.parts) =
      ((f.items.map fun t => .str t.name).map
        (Json.nullable? (Json.tagged? FieldType.ofName?))).getD (some none) := optional?_written rfl
  rw [toJson_eq_written, ofJson?]
  simp only [Json.members?, Option.bind_eq_bind, Option.bind_some, hname, htype, hprimary,
    hrequired, hunique, hmultilingual, hdefault, hlength, hmax, hrelation, hitems, tagged?_name,
    Json.string?, default?_read, max?_read, maxLength?_read, relation?_read, items?_read]
  split <;> rfl

theorem default_kept_iff {value : Option Json} :
    (value.filter fun v => !v.isNull).map Json.canonical = value.filter (fun v => !v.isNull) ↔
      ∀ v ∈ value, v.IsCanonical := by
  cases value with
  | none => simp
  | some v =>
    have hiff : v.canonical = v ↔ v.IsCanonical :=
      ⟨fun h => h ▸ Json.isCanonical_canonical v, Json.IsCanonical.canonical_eq⟩
    cases hnull : v.isNull with
    | true =>
      have hv : v = .null := by
        cases v <;> first | rfl | cases hnull
      subst hv
      simpa [Option.filter, hnull] using Json.IsCanonical.null
    | false => simpa [Option.filter, hnull] using hiff

theorem max_kept_iff {x : Option Float} :
    x.filter Float.isFinite = x ↔ ∀ y ∈ x, y.isFinite = true := by
  cases x with
  | none => simp
  | some x => cases h : x.isFinite <;> simp [Option.filter, h]

/-- Exactly the fields in canonical form are read back. -/
theorem ofJson?_toJson_iff : ofJson? f.toJson = some f.readBack ↔ f.IsCanonical := by
  rw [ofJson?_toJson_eq]
  constructor
  · intro h
    split at h
    · next hlength =>
      have hread := Option.some.inj h
      exact ⟨default_kept_iff.mp (congrArg Field.default hread), hlength,
        max_kept_iff.mp (congrArg Field.max hread)⟩
    · cases h
  · rintro ⟨hdefault, hlength, hmax⟩
    rw [if_pos hlength, default_kept_iff.mpr hdefault, max_kept_iff.mpr hmax]
    rfl

end ReadBack

section Alike

/-- Every later stage treats the fields alike. -/
structure Alike (f g : Field) : Prop where
  name : f.name = g.name
  type : f.type = g.type
  primary : f.primary = g.primary
  kind : f.kind = g.kind
  hasColumn : f.hasColumn = g.hasColumn
  isLocalized : f.isLocalized = g.isLocalized
  columnType : ∀ d, f.columnType? d = g.columnType? d
  column : ∀ d, f.column? d = g.column? d
  keyColumn : ∀ d, f.keyColumn? d = g.keyColumn? d

/-- Null is no default. -/
theorem defaultLiteral?_readBack (f : Field) : f.readBack.defaultLiteral? = f.defaultLiteral? := by
  change (f.default.filter fun v => !v.isNull).bind f.type.defaultLiteral? =
    f.default.bind f.type.defaultLiteral?
  cases f.default with
  | none => rfl
  | some v => cases v <;> rfl

theorem columnWith?_readBack (generated : Bool) (f : Field) (d : Dialect) :
    f.readBack.columnWith? generated d = f.columnWith? generated d := by
  simp only [columnWith?, defaultLiteral?_readBack]
  rfl

theorem alike_readBack (f : Field) : f.readBack.Alike f where
  name := rfl
  type := rfl
  primary := rfl
  kind := rfl
  hasColumn := rfl
  isLocalized := rfl
  columnType _ := rfl
  column d := columnWith?_readBack f.primary f d
  keyColumn d := columnWith?_readBack false f d

end Alike

end Field

end EntityStore
