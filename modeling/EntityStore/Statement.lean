import EntityStore.Dialect
import EntityStore.Json.Printer

/-!
Statements are written as pieces: text, and values that stand where a placeholder will be. The
placeholders are numbered from left to right when the pieces are put together, so they stand in
the order of the bound values, which travel beside the statement as its parameters.
-/
namespace EntityStore

inductive Parameter where
  | null
  | bool (b : Bool)
  | int (n : Int)
  | float (x : Float)
  | text (s : String)
  | bytes (b : ByteArray)

namespace Parameter

/-- The type to which a placeholder is cast where the server has to infer it. -/
def castType? : Parameter → Option String
  | null => none
  | bool _ => some "BOOLEAN"
  | int _ => some "BIGINT"
  | float _ => some "FLOAT8"
  | text _ => some "TEXT"
  | bytes _ => some "BYTEA"

/-- An integer that fits 64 signed bits stays one; any other number is a double. -/
def ofNumber (n : Number) : Parameter :=
  match n.int64? with
  | some i => int i
  | none => float n.toFloat

/-- A value as it is bound to most columns: arrays and objects as their text. -/
def ofJson : Json → Parameter
  | .null => null
  | .bool b => bool b
  | .num n => ofNumber n
  | .str s => text s
  | .arr items => text (Json.arr items).text
  | .obj members => text (Json.obj members).text

/-- A value bound to a column of objects: the bytes of its text. -/
def ofObject : Json → Parameter
  | .null => null
  | v => bytes v.text.toUTF8

/-- A key: numerals bind as integers. -/
def ofId : Json → Parameter
  | .str s =>
    match Text.readTrimmedInt64? s with
    | some i => int i
    | none => text s
  | v => ofJson v

end Parameter

inductive Piece where
  | text (s : String)
  | value (p : Parameter)

abbrev Sql := List Piece

structure Statement where
  sql : String
  params : List Parameter

namespace Dialect

def placeholder (index : Nat) (p : Parameter) : Dialect → String
  | mysql | sqlite => "?"
  | postgres =>
    match p.castType? with
    | some type => "$" ++ toString index ++ "::" ++ type
    | none => "$" ++ toString index

end Dialect

structure Bindings where
  dialect : Dialect
  params : List Parameter := []

namespace Bindings

/-- Binds a value and gives its text. NULL is written out and never bound. -/
def push (b : Bindings) : Parameter → String × Bindings
  | .null => ("NULL", b)
  | p => (b.dialect.placeholder (b.params.length + 1) p, { b with params := b.params ++ [p] })

def pushAllFrom (b : Bindings) : List Parameter → List String × Bindings
  | [] => ([], b)
  | p :: rest =>
    let (text, b) := b.push p
    let (texts, b) := pushAllFrom b rest
    (text :: texts, b)

def pushAll (b : Bindings) (ps : List Parameter) : String × Bindings :=
  let (texts, b) := b.pushAllFrom ps
  (Text.join ", " texts, b)

end Bindings

namespace Sql

def text (s : String) : Sql := [.text s]

def value (p : Parameter) : Sql := [.value p]

def join (separator : String) : List Sql → Sql
  | [] => []
  | [s] => s
  | s :: t :: rest => s ++ text separator ++ join separator (t :: rest)

def write (b : Bindings) : Sql → String × Bindings
  | [] => ("", b)
  | .text s :: rest =>
    let (t, b) := write b rest
    (s ++ t, b)
  | .value p :: rest =>
    let (s, b) := b.push p
    let (t, b) := write b rest
    (s ++ t, b)

def statement (d : Dialect) (pieces : Sql) : Statement :=
  let (s, b) := write { dialect := d } pieces
  ⟨s, b.params⟩

end Sql

end EntityStore
