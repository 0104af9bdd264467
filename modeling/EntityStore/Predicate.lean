import EntityStore.Query
import EntityStore.Schema
import EntityStore.Statement

/-!
Expressions that read a field, and conditions as the engine sees them. A field is read from a column
of the table under its alias, or if it is localized from the column of the row of localized values
with the same key. A comparison of a field that is not stored is left out, and so is a connector
without anything left to connect; nothing of them is bound or written.
-/
namespace EntityStore

inductive Expression where
  | column (source name : String)
  | localized (table key source name : String)
deriving DecidableEq, Repr

namespace Expression

/-- The alias of a table of localized values inside the expression. -/
def localizedAlias : String := "t"

def sql (d : Dialect) : Expression → String
  | column source name => d.qualified source name
  | localized table key source name =>
    "(SELECT " ++ d.qualified localizedAlias name ++ " FROM " ++ d.quote table ++ " AS " ++
      d.quote localizedAlias ++ " WHERE " ++ d.qualified localizedAlias key ++ " = " ++
      d.qualified source key ++ ")"

end Expression

def Schema.expression? (s : Schema) (source field : String) : Option Expression :=
  match s.field? field with
  | none =>
    if s.primaryField?.isNone && field == s.primaryKey then some (.column source field) else none
  | some f =>
    if !f.hasColumn then none
    else if f.isLocalized then
      some (.localized (Schema.localizedTable s.name) s.primaryKey source f.name)
    else some (.column source f.name)

def Registry.expression? (r : Registry) (model field : String) : Option Expression :=
  (r.schema? model).bind fun s => s.expression? model field

inductive Operand where
  | expression (e : Expression)
  | value (p : Parameter)

inductive Predicate where
  | compare (left : Expression) (operator : Comparison) (right : Operand)
  | connect (operator : Connector) (children : List Predicate)

namespace Operand

def sql (d : Dialect) : Operand → Sql
  | expression e => Sql.text (e.sql d)
  | value p => Sql.value p

end Operand

namespace Predicate

mutual

def sql (d : Dialect) : Predicate → Sql
  | compare left operator right =>
    Sql.text ("(" ++ left.sql d ++ " " ++ operator.symbol ++ " ") ++ right.sql d ++ Sql.text ")"
  | connect operator children =>
    Sql.text "(" ++ Sql.join (" " ++ operator.symbol ++ " ") (sqls d children) ++ Sql.text ")"

def sqls (d : Dialect) : List Predicate → List Sql
  | [] => []
  | p :: rest => sql d p :: sqls d rest

end

end Predicate

/-- Whether numerals compared with the field are integers: keys, references and integral fields. -/
def Schema.holdsIntegers (s : Schema) (field : String) : Bool :=
  field == s.primaryKey ||
    match s.field? field with
    | none => false
    | some f =>
      match f.kind with
      | .oneToOne _ | .oneToMany _ => true
      | .scalar t => t.isIntegral
      | .manyToMany _ | .list _ => false

def Registry.comparand (r : Registry) (model field : String) (value : Json) : Parameter :=
  match r.schema? model with
  | some s => if s.holdsIntegers field then .ofId value else .ofJson value
  | none => .ofJson value

namespace Condition

def otherField : Json → String
  | .str s => s
  | _ => ""

def operand? (r : Registry) (source field : String) (value : Json) (isField : Bool) :
    Option Operand :=
  if isField then (r.expression? source (otherField value)).map .expression
  else some (.value (r.comparand source field value))

mutual

/-- The condition with everything left out that is not stored. -/
def resolve? (r : Registry) (source : String) : Condition → Option Predicate
  | .compare field operator value isField model => do
    let source := model.getD source
    let left ← r.expression? source field
    let right ← operand? r source field value isField
    some (.compare left operator right)
  | .connect operator children model =>
    match resolveAll r (model.getD source) children with
    | [] => none
    | kept => some (.connect operator kept)

def resolveAll (r : Registry) (source : String) : List Condition → List Predicate
  | [] => []
  | c :: rest => (resolve? r source c).toList ++ resolveAll r source rest

end

def sql (r : Registry) (d : Dialect) (source : String) (c : Condition) : Sql :=
  match c.resolve? r source with
  | some p => p.sql d
  | none => []

end Condition

end EntityStore
