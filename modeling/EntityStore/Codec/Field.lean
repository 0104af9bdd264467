import EntityStore.Json.Shape
import EntityStore.Schema

/-!
Models as documents. Only what differs from the default is written, and the maximal length may
be read under two names. What stands inside a field is read the same way from either format.
-/
namespace EntityStore

namespace Relation

def toJson (r : Relation) : Json :=
  .obj <| [("kind", .str r.kind.name), ("model", .str r.model)] ++
    if r.weak then [("weak", .bool true)] else []

def ofJson? (v : Json) : Option Relation := do
  let r ← v.fields? .json ["model", "kind", "weak"]
  some {
    model := ← r.required? ["model"] Json.string?
    kind := ← r.required? ["kind"] (Json.tagged? RelationKind.ofName?)
    weak := ← r.defaulted? ["weak"] false Json.boolean? }

end Relation

namespace Field

def flag (name : String) (b : Bool) : Record :=
  if b then [(name, .bool true)] else []

def setting {α : Type} (name : String) (write : α → Json) : Option α → Record
  | some x => [(name, write x)]
  | none => []

def toJson (f : Field) : Json :=
  .obj <|
    setting "default" id f.default ++
    setting "items" (fun t => .str t.name) f.items ++
    setting "max" Json.ofFloat f.max ++
    setting "maxLength" Json.ofNat f.maxLength ++
    flag "multilingual" f.multilingual ++
    [("name", .str f.name)] ++
    flag "primary" f.primary ++
    setting "relation" Relation.toJson f.relation ++
    flag "required" f.required ++
    [("type", .str f.type.name)] ++
    flag "unique" f.unique

def ofJson? (v : Json) : Option Field := do
  let r ← v.members?
  some {
    name := ← r.required? ["name"] Json.string?
    type := ← r.required? ["type"] (Json.tagged? FieldType.ofName?)
    primary := ← r.defaulted? ["primary"] false Json.boolean?
    required := ← r.defaulted? ["required"] false Json.boolean?
    unique := ← r.defaulted? ["unique"] false Json.boolean?
    multilingual := ← r.defaulted? ["multilingual"] false Json.boolean?
    default := ← r.optional? ["default"] fun v => some v.canonical
    maxLength := ← r.optional? ["maxLength", "max_length"] (Json.natUpTo? Text.maxUInt32)
    max := ← r.optional? ["max"] Json.float?
    relation := ← r.optional? ["relation"] Relation.ofJson?
    items := ← r.optional? ["items"] (Json.tagged? FieldType.ofName?) }

end Field

namespace Schema

def toJson (s : Schema) : Json :=
  .obj [("fields", .arr (s.fields.map Field.toJson)), ("name", .str s.name)]

def ofDocument? (format : Format) (v : Json) : Option Schema := do
  let r ← v.fields? format ["name", "fields"]
  some {
    name := ← r.required? ["name"] Json.string?
    fields := ← r.defaulted? ["fields"] [] (Json.array? Field.ofJson?) }

def ofJson? : Json → Option Schema :=
  ofDocument? .json

def listOfDocument? (format : Format) : Json → Option (List Schema) :=
  Json.array? (ofDocument? format)

def listOfJson? : Json → Option (List Schema) :=
  listOfDocument? .json

end Schema

end EntityStore
