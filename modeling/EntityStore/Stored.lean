import EntityStore.Decimal
import EntityStore.Json.Parser
import EntityStore.Json.Printer
import EntityStore.Schema
import EntityStore.Statement
import EntityStore.Text.Basic

/-!
Stored values: the entries of a record by where the fields they name are stored, and the values of
rows as the fields mean them. Engines hold booleans as numbers and objects as text, and inside an
embedded row every value is text.
-/
namespace EntityStore

abbrev Entry := Field × Json

def Field.parameter (f : Field) (value : Json) : Parameter :=
  if f.type = .object then .ofObject value else .ofJson value

namespace Schema

def entries (s : Schema) (value : Record) : List Entry :=
  s.fields.filterMap fun f => (value.get? f.name).map fun v => (f, v)

def scalarEntries (s : Schema) (value : Record) : List Entry :=
  (s.entries value).filter fun e => e.1.isScalar && !e.1.isLocalized

def localizedEntries (s : Schema) (value : Record) : List Entry :=
  (s.entries value).filter fun e => e.1.isLocalized

def listEntries (s : Schema) (value : Record) : List Entry :=
  (s.entries value).filter fun e => e.1.isList

def relationEntries (s : Schema) (value : Record) : List Entry :=
  (s.entries value).filter fun e => e.1.isRelation

/-- The scalars that an update assigns: all but the key. -/
def assignedEntries (s : Schema) (value : Record) : List Entry :=
  (s.scalarEntries value).filter fun e => e.1.name != s.primaryKey

/-- The scalars that an insert fills in: all but a key that is null. -/
def insertedEntries (s : Schema) (value : Record) : List Entry :=
  (s.scalarEntries value).filter fun e => !(e.1.name == s.primaryKey && e.2.isNull)

end Schema

namespace Json

def escapeControl (c : Char) : List Char :=
  if c.toNat < 0x20 then escapeChar c else [c]

def escapeControls (s : String) : String :=
  String.ofList (s.toList.flatMap escapeControl)

/--
The value of a stored text. A text that is no document is read once more with its control
characters escaped, and if it is none then either, the text itself is the value.
-/
def ofStoredText (s : String) : Json :=
  match parse? s with
  | some v => v
  | none => (parse? (escapeControls s)).getD (.str s)

end Json

namespace FieldType

def booleanOfText (s : String) : Json :=
  match s with
  | "1" | "true" | "t" => .bool true
  | "0" | "false" | "f" => .bool false
  | "" => .null
  | s => .str s

def integerOfText (s : String) : Json :=
  match Text.readTrimmedInt64? s with
  | some n => .ofInt n
  | none => if s = "" then .null else .str s

def decimalOfText (s : String) : Json :=
  match Decimal.readTrimmedFloat? s with
  | some x => if x.isFinite then .num (.float x) else .str s
  | none => if s = "" then .null else .str s

def coerce (t : FieldType) : Json → Json
  | .num n => if t = .boolean then .bool (n.toFloat != 0) else .num n
  | .str s =>
    if t = .boolean then booleanOfText s
    else if t.isIntegral then integerOfText s
    else if t.isDecimal then decimalOfText s
    else if t = .object then .ofStoredText s
    else .str s
  | v => v

end FieldType

namespace Field

/-- The value of a field inside an embedded row, where a reference is a key. -/
def decodeEmbedded (f : Field) (v : Json) : Json :=
  match f.kind with
  | .scalar t => t.coerce v
  | .oneToOne _ | .oneToMany _ => FieldType.integer.coerce v
  | .manyToMany _ | .list _ => v

end Field

namespace Schema

def decodeEmbedded (s : Schema) (row : Record) : Record :=
  s.fields.foldl (fun row f => row.update f.name f.decodeEmbedded) row

end Schema

namespace Registry

/-- The value of a reference that was read as a row. -/
def decodeReference (r : Registry) (relation : Relation) : Json → Json
  | .str s =>
    match Json.ofStoredText s, r.schema? relation.model with
    | .obj members, some related => .obj (related.decodeEmbedded members)
    | v, _ => v
  | v => v

def decodeField (r : Registry) (f : Field) (v : Json) : Json :=
  match f.kind with
  | .scalar t => t.coerce v
  | .oneToOne relation | .oneToMany relation => r.decodeReference relation v
  | .manyToMany _ | .list _ => v

def decodeRow (r : Registry) (s : Schema) (row : Record) : Record :=
  s.fields.foldl (fun row f => row.update f.name (r.decodeField f)) row

end Registry

end EntityStore
