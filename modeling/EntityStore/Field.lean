import EntityStore.Json.Basic

/-!
Fields of a model. The type, the relation and the flags of a field decide where it is stored; the
decision is made here once, by `Field.kind`.
-/
namespace EntityStore

inductive FieldType where
  | string
  | text
  | integer
  | float
  | number
  | boolean
  | choice
  | timestamp
  | object
  | email
  | file
  | password
  | tel
  | url
  | relation
  | list
deriving DecidableEq, Repr

namespace FieldType

def name : FieldType → String
  | string => "string"
  | text => "text"
  | integer => "integer"
  | float => "float"
  | number => "number"
  | boolean => "boolean"
  | choice => "enum"
  | timestamp => "timestamp"
  | object => "object"
  | email => "email"
  | file => "file"
  | password => "password"
  | tel => "tel"
  | url => "url"
  | relation => "relation"
  | list => "list"

def all : List FieldType :=
  [string, text, integer, float, number, boolean, choice, timestamp, object, email, file,
    password, tel, url, relation, list]

def ofName? (s : String) : Option FieldType :=
  all.find? fun t => t.name == s

def isStringLike : FieldType → Bool
  | string | email | file | password | tel | url => true
  | _ => false

def isIntegral : FieldType → Bool
  | integer | choice | timestamp => true
  | _ => false

def isDecimal : FieldType → Bool
  | float | number => true
  | _ => false

end FieldType

inductive RelationKind where
  | oneToOne
  | oneToMany
  | manyToMany
deriving DecidableEq, Repr

namespace RelationKind

def name : RelationKind → String
  | oneToOne => "one2one"
  | oneToMany => "one2many"
  | manyToMany => "many2many"

def ofName? : String → Option RelationKind
  | "one2one" => some oneToOne
  | "one2many" => some oneToMany
  | "many2many" => some manyToMany
  | _ => none

end RelationKind

/-- A relation is weak when it owns the related rows: they come and go with the link. -/
structure Relation where
  model : String
  kind : RelationKind
  weak : Bool := false
deriving DecidableEq, Repr

structure Field where
  name : String
  type : FieldType
  primary : Bool := false
  required : Bool := false
  unique : Bool := false
  multilingual : Bool := false
  default : Option Json := none
  maxLength : Option Nat := none
  max : Option Float := none
  relation : Option Relation := none
  items : Option FieldType := none

inductive FieldKind where
  | scalar (type : FieldType)
  | oneToOne (relation : Relation)
  | oneToMany (relation : Relation)
  | manyToMany (relation : Relation)
  | list (items : FieldType)
deriving DecidableEq

namespace FieldKind

def relation? : FieldKind → Option Relation
  | oneToOne r | oneToMany r | manyToMany r => some r
  | scalar _ | list _ => none

/-- The relation whose key a column of the owner holds. -/
def reference? : FieldKind → Option Relation
  | oneToOne r | oneToMany r => some r
  | manyToMany _ | scalar _ | list _ => none

end FieldKind

namespace Field

def kind (f : Field) : FieldKind :=
  match f.type, f.relation with
  | .relation, some r =>
    match r.kind with
    | .oneToOne => .oneToOne r
    | .oneToMany => .oneToMany r
    | .manyToMany => .manyToMany r
  | .list, _ => .list (f.items.getD .string)
  | t, _ => .scalar t

def hasColumn (f : Field) : Bool :=
  match f.kind with
  | .scalar t => t != .relation
  | .oneToOne _ | .oneToMany _ => true
  | .manyToMany _ | .list _ => false

def isLocalized (f : Field) : Bool :=
  f.multilingual && !f.primary &&
    match f.kind with
    | .scalar t => t != .relation
    | _ => false

def isList (f : Field) : Bool :=
  match f.kind with
  | .list _ => true
  | _ => false

def isScalar (f : Field) : Bool :=
  match f.kind with
  | .scalar _ => true
  | _ => false

def isRelation (f : Field) : Bool :=
  f.kind.relation?.isSome

def isReference (f : Field) : Bool :=
  f.kind.reference?.isSome

def ofRelation (name model : String) (kind : RelationKind) : Field :=
  { name, type := .relation, relation := some { model, kind } }

def ofList (name : String) (items : FieldType) : Field :=
  { name, type := .list, items := some items }

def makeWeak (f : Field) : Field :=
  { f with relation := f.relation.map fun r => { r with weak := true } }

end Field

end EntityStore
