import EntityStore.Decimal
import EntityStore.Dialect
import EntityStore.Json.Printer
import EntityStore.Schema

/-!
Columns and tables: which type a field has in a dialect, how the column is declared, and the tables
of a model, which are its own, the one for its localized values, and those made for its relations
and lists. Each table is dropped before it is created.
-/
namespace EntityStore

inductive ColumnType where
  | boolean
  | varchar (length : Nat)
  | decimal (precision : Nat)
  /-- An integer with a display width. -/
  | int (width : Nat)
  | integer
  | bigint
  | blob
  | bytea
  | text
deriving DecidableEq, Repr

namespace ColumnType

def sql : ColumnType → String
  | boolean => "BOOLEAN"
  | varchar n => "VARCHAR(" ++ toString n ++ ")"
  | decimal n => "DECIMAL(" ++ toString n ++ ",10)"
  | int n => "INT(" ++ toString n ++ ")"
  | integer => "INTEGER"
  | bigint => "BIGINT"
  | blob => "BLOB"
  | bytea => "BYTEA"
  | text => "TEXT"

def isInteger : ColumnType → Bool
  | int _ | integer | bigint => true
  | _ => false

def bigInteger : Dialect → ColumnType
  | .sqlite => integer
  | .mysql | .postgres => bigint

end ColumnType

namespace Field

/-- Binary digits of the whole part of a number, at least one. -/
def bitLength (x : Float) : Nat :=
  let n := x.abs.toUInt64.toNat
  if n = 0 then 1 else n.log2 + 1

/-- The bound of the values; zero is no bound. -/
def bound? (f : Field) : Option Float :=
  f.max.filter fun x => x != 0

def integerType (bound : Option Float) : Dialect → ColumnType
  | .mysql => .int ((bound.map bitLength).getD 20)
  | .postgres =>
    match bound with
    | some x => if bitLength x < 32 then .integer else .bigint
    | none => .bigint
  | .sqlite => .integer

def scalarType (f : Field) (type : FieldType) (d : Dialect) : ColumnType :=
  match type with
  | .boolean => .boolean
  | .string | .email | .file | .password | .tel | .url => .varchar (f.maxLength.getD 255)
  | .float | .number =>
    .decimal (match f.bound? with
      | some x => (Decimal.positionalText x).length + 10
      | none => 20)
  | .integer | .choice => integerType f.bound? d
  | .object =>
    match d with
    | .postgres => .bytea
    | .mysql | .sqlite => .blob
  | .timestamp => .bigint
  | .text | .relation | .list => .text

/-- The type of a key: character keys are generated integers. -/
def keyType (f : Field) (type : FieldType) (d : Dialect) : ColumnType :=
  match d with
  | .sqlite => if type.isStringLike || type.isIntegral then .integer else f.scalarType type d
  | .mysql => if type.isStringLike then .bigint else f.scalarType type d
  | .postgres =>
    if type.isStringLike || type == .integer then .bigint else f.scalarType type d

def columnType? (f : Field) (d : Dialect) : Option ColumnType :=
  match f.kind with
  | .oneToOne _ | .oneToMany _ => some (.bigInteger d)
  | .manyToMany _ | .list _ | .scalar .relation => none
  | .scalar t => some (if f.primary then f.keyType t d else f.scalarType t d)

end Field

namespace Json

def isTruthy : Json → Bool
  | .null => false
  | .bool b => b
  | .num n => n.toFloat != 0
  | .str s => s != ""
  | .arr _ | .obj _ => true

end Json

namespace FieldType

/-- The literal of a default: bare for booleans, else a text literal. Null is no default. -/
def defaultLiteral? (t : FieldType) (value : Json) : Option String :=
  match value with
  | .null => none
  | v =>
    if t = .boolean then some (if v.isTruthy then "TRUE" else "FALSE")
    else some (Dialect.literal (match v with
      | .str s => s
      | v => v.text))

end FieldType

structure Column where
  name : String
  type : ColumnType
  notNull : Bool
  default : Option String
  unique : Bool
  /-- The engine counts the values up. -/
  generated : Bool

namespace Column

def generatedText : Dialect → String
  | .mysql => " AUTO_INCREMENT"
  | .postgres => " GENERATED BY DEFAULT AS IDENTITY"
  | .sqlite => ""

def sql (c : Column) (d : Dialect) : String :=
  d.quote c.name ++ " " ++ c.type.sql ++
    (if c.notNull then " NOT NULL" else "") ++
    (match c.default with
      | some literal => " DEFAULT " ++ literal
      | none => "") ++
    (if c.unique then " UNIQUE" else "") ++
    (if c.generated then generatedText d else "")

end Column

namespace Field

def defaultLiteral? (f : Field) : Option String :=
  f.default.bind f.type.defaultLiteral?

def columnWith? (generated : Bool) (f : Field) (d : Dialect) : Option Column :=
  (f.columnType? d).map fun t => {
    name := f.name
    type := t
    notNull := (f.required && f.type != .relation) || f.primary
    default := f.defaultLiteral?
    unique := f.unique
    generated := generated && t.isInteger }

def column? (f : Field) (d : Dialect) : Option Column :=
  f.columnWith? f.primary d

/-- The column of a key in the table of localized values, where it is never counted up. -/
def keyColumn? (f : Field) (d : Dialect) : Option Column :=
  f.columnWith? false d

end Field

structure Table where
  name : String
  columns : List Column
  key : String

namespace Table

def lines (t : Table) (d : Dialect) : List String :=
  t.columns.map (fun c => c.sql d) ++ ["PRIMARY KEY (" ++ d.quote t.key ++ ")"]

def createSql (t : Table) (d : Dialect) : String :=
  "CREATE TABLE " ++ d.quote t.name ++ " (\n  " ++ Text.join ",\n  " (t.lines d) ++ "\n)" ++
    d.tableOptions

def dropSql (name : String) (d : Dialect) : String :=
  "DROP TABLE IF EXISTS " ++ d.quote name

end Table

namespace Schema

/-- The key of a model, an integer where none is declared. -/
def keyField (s : Schema) : Field :=
  s.primaryField?.getD { name := defaultKey, type := .integer, primary := true }

def addedKey (s : Schema) (d : Dialect) : List Column :=
  match s.primaryField? with
  | some _ => []
  | none => (s.keyField.column? d).toList

def ownTable (s : Schema) (d : Dialect) : Table where
  name := s.name
  columns := s.addedKey d ++
    (s.fields.filter fun f => !f.isLocalized).filterMap fun f => f.column? d
  key := s.keyField.name

def localized? (s : Schema) (d : Dialect) : Option Table :=
  match (s.fields.filter Field.isLocalized).filterMap fun f => f.column? d with
  | [] => none
  | columns => some {
      name := localizedTable s.name
      columns := (s.keyField.keyColumn? d).toList ++ columns
      key := s.keyField.name }

def ownTables (s : Schema) (d : Dialect) : List Table :=
  s.ownTable d :: (s.localized? d).toList

def tables (s : Schema) (d : Dialect) : List Table :=
  s.ownTables d ++ s.auxiliary.flatMap fun a => a.ownTables d

end Schema

def Registry.tables (r : Registry) (d : Dialect) : List Table :=
  r.schemas.flatMap fun s => s.tables d

end EntityStore
