import EntityStore.Proofs.Stored.Object
import EntityStore.Table

/-!
A stored value is read in two ways: from a column, as the engine holds it, and from an embedded row,
as its text. Both come to the same where the type of the field is that of its column; a key of a
character type is held as an integer, and stays a text only inside an embedded row.
-/
namespace EntityStore

/-- The values that a column holds in an engine without booleans and documents. Decimal columns hold
integers among other numbers. -/
inductive ColumnType.Holds : ColumnType → Json → Prop
  | null (t : ColumnType) : Holds t .null
  | integer {t : ColumnType} {n : Int} : t.isInteger = true → -0x8000000000000000 ≤ n →
    n < 0x8000000000000000 → Holds t (.ofInt n)
  | decimal (precision : Nat) (n : Int) : Holds (.decimal precision) (.ofInt n)
  | zero : Holds .boolean (.ofInt 0)
  | one : Holds .boolean (.ofInt 1)
  | varchar (length : Nat) (s : String) : Holds (.varchar length) (.str s)
  | text (s : String) : Holds .text (.str s)
  | blob (s : String) : Holds .blob (.str s)
  | bytea (s : String) : Holds .bytea (.str s)

/-- What stands for a value inside an embedded row: a number is there as its text. -/
def Json.embeddedText : Json → Json
  | .num n => .str (numberText n)
  | v => v

def Schema.HasOnly (s : Schema) (f : Field) : Prop :=
  s.fields.filter (fun g => g.name == f.name) = [f]

namespace Record

variable {k : String}

theorem get?_update_self (k : String) (change : Json → Json) (r : Record) :
    get? k (update k change r) = (get? k r).map change := by
  induction r with
  | nil => rfl
  | cons m rest ih =>
    obtain ⟨key, value⟩ := m
    by_cases hkey : key = k
    · simp [update, get?, hkey]
    · simp [update, get?, hkey, ih]

theorem get?_update_of_ne {key : String} (hne : key ≠ k) (change : Json → Json) (r : Record) :
    get? k (update key change r) = get? k r := by
  induction r with
  | nil => rfl
  | cons m rest ih =>
    obtain ⟨other, value⟩ := m
    by_cases hkey : other = key
    · subst hkey
      simp [update, get?, hne]
    · by_cases hother : other = k
      · subst hother
        simp [update, get?, hkey]
      · simp [update, get?, hkey, hother, ih]

/-- The value under a name is changed by the fields of this name, one after the other. -/
theorem get?_foldl_update (change : Field → Json → Json) (fields : List Field) (r : Record) :
    get? k (fields.foldl (fun r f => update f.name (change f) r) r) =
      (get? k r).map fun v =>
        (fields.filter fun f => f.name == k).foldl (fun v f => change f v) v := by
  induction fields generalizing r with
  | nil => simp
  | cons f rest ih =>
    rw [List.foldl_cons, ih]
    by_cases hname : f.name = k
    · rw [hname, get?_update_self, Option.map_map, List.filter_cons_of_pos (by simp [hname])]
      rfl
    · rw [get?_update_of_ne hname, List.filter_cons_of_neg (by simp [hname])]

end Record

namespace Schema.HasOnly

variable {s : Schema} {f : Field} {row : Record} {v : Json}

/-- The value of a field in a row that is read. -/
theorem get?_decodeRow (hf : s.HasOnly f) (r : Registry) (hrow : row.get? f.name = some v) :
    (r.decodeRow s row).get? f.name = some (r.decodeField f v) := by
  rw [Registry.decodeRow, Record.get?_foldl_update, hrow, hf]
  rfl

/-- The value of a field in a row that is read along. -/
theorem get?_decodeEmbedded (hf : s.HasOnly f) (hrow : row.get? f.name = some v) :
    (s.decodeEmbedded row).get? f.name = some (f.decodeEmbedded v) := by
  rw [Schema.decodeEmbedded, Record.get?_foldl_update, hrow, hf]
  rfl

end Schema.HasOnly

/-- The types of fields that columns of numbers are made for: those of numbers and truth values, and
characters in an integer column. -/
structure ColumnType.Suits (c : ColumnType) (t : FieldType) : Prop where
  integer : c.isInteger = true → t.isIntegral = true ∨ t.isStringLike = true
  decimal : ∀ precision, c = .decimal precision → t.isDecimal = true
  boolean : c = .boolean → t = .boolean

namespace Field

variable {t : FieldType}

theorem suits_of_isInteger {c : ColumnType} (hc : c.isInteger = true)
    (ht : t.isIntegral = true ∨ t.isStringLike = true) : c.Suits t where
  integer := fun _ => ht
  decimal := by
    rintro precision rfl
    cases hc
  boolean := by
    rintro rfl
    cases hc

theorem isInteger_integerType (bound : Option Float) (d : Dialect) :
    (integerType bound d).isInteger = true := by
  unfold integerType
  split
  · rfl
  · split
    · split <;> rfl
    · rfl
  · rfl

theorem suits_scalarType (f : Field) (t : FieldType) (d : Dialect) :
    (f.scalarType t d).Suits t := by
  cases t with
  | integer | choice => exact suits_of_isInteger (isInteger_integerType f.bound? d) (.inl rfl)
  | timestamp => exact suits_of_isInteger rfl (.inl rfl)
  | object => cases d <;> exact ⟨nofun, nofun, nofun⟩
  | boolean => exact ⟨nofun, nofun, fun _ => rfl⟩
  | float | number => exact ⟨nofun, fun _ _ => rfl, nofun⟩
  | _ => exact ⟨nofun, nofun, nofun⟩

theorem suits_keyType (f : Field) (t : FieldType) (d : Dialect) : (f.keyType t d).Suits t := by
  unfold keyType
  split
  · split
    · next h => exact suits_of_isInteger rfl ((Bool.or_eq_true ..).mp h).symm
    · exact f.suits_scalarType t _
  · split
    · next h => exact suits_of_isInteger rfl (.inr h)
    · exact f.suits_scalarType t _
  · split
    · next h =>
      refine suits_of_isInteger rfl ?_
      rcases (Bool.or_eq_true ..).mp h with h | h
      · exact .inr h
      · rw [beq_iff_eq] at h
        subst h
        exact .inl rfl
    · exact f.suits_scalarType t _

theorem suits_columnType? {f : Field} {d : Dialect} {c : ColumnType}
    (hkind : f.kind = .scalar t) (hc : f.columnType? d = some c) : c.Suits t := by
  rw [columnType?, hkind] at hc
  cases t with
  | relation => cases hc
  | _ =>
    dsimp only at hc
    split at hc <;> cases hc
    · exact f.suits_keyType _ d
    · exact f.suits_scalarType _ d

end Field

namespace FieldType

variable {t : FieldType}

section Coerce

theorem coerce_num (h : t ≠ .boolean) (n : Number) : t.coerce (.num n) = .num n :=
  if_neg h

theorem coerce_str_of_isIntegral (h : t.isIntegral = true) (s : String) :
    t.coerce (.str s) = integerOfText s := by
  cases t <;> cases h <;> simp [coerce, isIntegral]

theorem coerce_str_of_isDecimal (h : t.isDecimal = true) (s : String) :
    t.coerce (.str s) = decimalOfText s := by
  cases t <;> cases h <;> simp [coerce, isIntegral, isDecimal]

theorem coerce_str_of_isStringLike (h : t.isStringLike = true) (s : String) :
    t.coerce (.str s) = .str s := by
  cases t <;> cases h <;> simp [coerce, isIntegral, isDecimal]

theorem integerOfText_numberText {n : Int} (hlow : -0x8000000000000000 ≤ n)
    (hhigh : n < 0x8000000000000000) :
    integerOfText (Json.numberText (.int n)) = .ofInt n := by
  rw [integerOfText, Json.numberText, Text.readTrimmedInt64?_toString hlow hhigh]

/-- No text is read as an integer where the type is one of decimals. -/
theorem decimalOfText_ne_ofInt (s : String) (n : Int) : decimalOfText s ≠ .ofInt n := by
  unfold decimalOfText
  split <;> split <;> exact fun h => by cases h

end Coerce

/-- A value of a column and its text are read alike but for integers in columns of character keys
and of decimals. -/
theorem coerce_embeddedText_iff {f : Field} {d : Dialect} {c : ColumnType} {e : Json}
    (hkind : f.kind = .scalar t) (hc : f.columnType? d = some c) (he : c.Holds e) :
    t.coerce e = t.coerce e.embeddedText ↔
      (e.isNumber = true → t.isStringLike = false ∧ t.isDecimal = false) := by
  obtain ⟨hinteger, hdecimal, hboolean⟩ := Field.suits_columnType? hkind hc
  cases he with
  | null | varchar | text | blob | bytea => exact iff_of_true rfl fun h => by cases h
  | zero =>
    cases hboolean rfl
    exact iff_of_true rfl fun _ => ⟨rfl, rfl⟩
  | one =>
    cases hboolean rfl
    exact iff_of_true rfl fun _ => ⟨rfl, rfl⟩
  | decimal precision n =>
    have ht := hdecimal precision rfl
    have hne : t ≠ .boolean := by
      rintro rfl
      cases ht
    refine iff_of_false (fun heq => ?_) fun h => ?_
    · rw [Json.ofInt, coerce_num hne, Json.embeddedText, coerce_str_of_isDecimal ht] at heq
      exact decimalOfText_ne_ofInt _ n heq.symm
    · rw [(h rfl).2] at ht
      cases ht
  | @integer _ n hc hlow hhigh =>
    rcases hinteger hc with ht | ht
    · have hne : t ≠ .boolean := by
        rintro rfl
        cases ht
      refine iff_of_true ?_ fun _ => ?_
      · rw [Json.ofInt, coerce_num hne, Json.embeddedText, coerce_str_of_isIntegral ht,
          integerOfText_numberText hlow hhigh]
        rfl
      · cases t <;> cases ht <;> exact ⟨rfl, rfl⟩
    · have hne : t ≠ .boolean := by
        rintro rfl
        cases ht
      refine iff_of_false (fun heq => ?_) fun h => ?_
      · rw [Json.ofInt, coerce_num hne, Json.embeddedText, coerce_str_of_isStringLike ht] at heq
        cases heq
      · rw [(h rfl).1] at ht
        cases ht

end FieldType

section Reading

variable {r : Registry} {owner related : Schema} {relation : Relation} {reference f : Field}

/-- A reference that is read as the text of an object is read as a row of the related model. -/
theorem Registry.decodeField_reference {text : String} {members : Record}
    (hkind : reference.kind.reference? = some relation)
    (hrelated : r.schema? relation.model = some related)
    (htext : Json.ofStoredText text = .obj members) :
    r.decodeField reference (.str text) = .obj (related.decodeEmbedded members) := by
  have hdecoded : r.decodeReference relation (.str text) =
      .obj (related.decodeEmbedded members) := by
    simp only [decodeReference, htext, hrelated]
  unfold decodeField
  cases hk : reference.kind with
  | oneToOne other | oneToMany other =>
    rw [hk] at hkind
    cases hkind
    exact hdecoded
  | scalar | manyToMany | list =>
    rw [hk] at hkind
    cases hkind

/-- A field of a related model is read from its column as it is read from an embedded row that holds
the text of its value, but for the integers in columns of character keys and of decimals. -/
theorem embedded_read_agrees_iff {t : FieldType} {d : Dialect} {c : ColumnType} {e : Json}
    {row carrying members : Record} {text : String}
    (hreference : reference.kind.reference? = some relation) (howner : owner.HasOnly reference)
    (hrelated : r.schema? relation.model = some related) (hf : related.HasOnly f)
    (hkind : f.kind = .scalar t) (hc : f.columnType? d = some c) (he : c.Holds e)
    (hrow : row.get? f.name = some e) (hcarrying : carrying.get? reference.name = some (.str text))
    (htext : Json.ofStoredText text = .obj members)
    (hmember : members.get? f.name = some e.embeddedText) :
    ∃ (direct embedded : Json) (decoded : Record),
      (r.decodeRow related row).get? f.name = some direct ∧
      (r.decodeRow owner carrying).get? reference.name = some (.obj decoded) ∧
      decoded.get? f.name = some embedded ∧
      (direct = embedded ↔
        (e.isNumber = true → t.isStringLike = false ∧ t.isDecimal = false)) := by
  have hdirect := hf.get?_decodeRow r hrow
  have howned := howner.get?_decodeRow r hcarrying
  rw [Registry.decodeField_reference hreference hrelated htext] at howned
  have hembedded := hf.get?_decodeEmbedded hmember
  simp only [Registry.decodeField, Field.decodeEmbedded, hkind] at hdirect hembedded
  exact ⟨_, _, _, hdirect, howned, hembedded, FieldType.coerce_embeddedText_iff hkind hc he⟩

end Reading

namespace Sample

def keyedUser (key : FieldType) : Schema where
  name := "User"
  fields := [
    { name := "id", type := key, primary := true },
    { name := "name", type := .string }]

def keyedRole : Schema where
  name := "Role"
  fields := [
    { name := "id", type := .integer, primary := true },
    .ofRelation "owner" "User" .oneToOne]

def integerKeys : Registry := ⟨[keyedUser .integer, keyedRole], rfl⟩

def characterKeys : Registry := ⟨[keyedUser .string, keyedRole], rfl⟩

def seventh : Json :=
  .obj [("id", .str "7")]

theorem ofStoredText_seventh : Json.ofStoredText seventh.text = seventh := by
  have hwhole : seventh.IsWhole :=
    .obj (List.pairwise_singleton ..) (List.forall_mem_singleton.mpr (.str _))
  exact hwhole.ofStoredText_text (by decide)

end Sample

open Sample in
theorem embedded_read_agrees_of_integer_key :
    ∃ (direct embedded : Json) (decoded : Record),
      (integerKeys.decodeRow (keyedUser .integer) [("id", .ofInt 7)]).get? "id" = some direct ∧
      (integerKeys.decodeRow keyedRole [("owner", .str seventh.text)]).get? "owner" =
        some (.obj decoded) ∧
      decoded.get? "id" = some embedded ∧ direct = embedded := by
  let f : Field := { name := "id", type := .integer, primary := true }
  let reference : Field := .ofRelation "owner" "User" .oneToOne
  have hinteger : ColumnType.integer.Holds (.ofInt 7) :=
    .integer rfl (by decide) (by decide)
  obtain ⟨direct, embedded, decoded, hdirect, hdecoded, hembedded, hagree⟩ :=
    @embedded_read_agrees_iff integerKeys keyedRole (keyedUser .integer) ⟨"User", .oneToOne, false⟩
      reference f .integer .sqlite .integer (.ofInt 7) [("id", .ofInt 7)]
      [("owner", .str seventh.text)] [("id", .str "7")] seventh.text rfl rfl rfl rfl rfl rfl
      hinteger rfl rfl ofStoredText_seventh rfl
  exact ⟨direct, embedded, decoded, hdirect, hdecoded, hembedded, hagree.mpr fun _ => ⟨rfl, rfl⟩⟩

open Sample in
/-- A key of a character type is a number in its own row and a text in an embedded one. -/
theorem embedded_key_stays_text :
    Field.columnType? { name := "id", type := .string, primary := true } .sqlite =
      some .integer ∧
    Record.get? "id" (characterKeys.decodeRow (keyedUser .string) [("id", .ofInt 7)]) =
      some (.ofInt 7) ∧
    Record.get? "owner" (characterKeys.decodeRow keyedRole [("owner", .str seventh.text)]) =
      some (.obj [("id", .str "7")]) := by
  let reference : Field := .ofRelation "owner" "User" .oneToOne
  have howner : keyedRole.HasOnly reference := rfl
  have hread := howner.get?_decodeRow characterKeys
    (show Record.get? "owner" [("owner", .str seventh.text)] = some (.str seventh.text) from rfl)
  rw [@Registry.decodeField_reference characterKeys (keyedUser .string) ⟨"User", .oneToOne, false⟩
    reference seventh.text [("id", .str "7")] rfl rfl ofStoredText_seventh] at hread
  exact ⟨rfl, rfl, hread⟩

end EntityStore
