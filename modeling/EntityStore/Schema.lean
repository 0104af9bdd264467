import EntityStore.Failure
import EntityStore.Field
import EntityStore.Text.LetterCase

/-!
Models with their fields, and the names and fields of the tables that a model needs besides its
own: one for its localized values, one for each many-to-many relation and one for each list. Only
lists of models that fit together become the registry of a store: names differ, no model has two
keys, relations lead to models of the list, and lists hold scalars.
-/
namespace EntityStore

structure Schema where
  name : String
  fields : List Field := []

namespace Schema

def defaultKey : String := "id"

def field? (s : Schema) (name : String) : Option Field :=
  s.fields.find? fun f => f.name == name

def primaryFields (s : Schema) : List Field :=
  s.fields.filter fun f => f.primary

def primaryField? (s : Schema) : Option Field :=
  s.fields.find? fun f => f.primary

def primaryKey (s : Schema) : String :=
  match s.primaryField? with
  | some f => f.name
  | none => defaultKey

def ownFields (s : Schema) : List Field :=
  s.fields.filter fun f => f.hasColumn && !f.isLocalized

def localizedFields (s : Schema) : List Field :=
  s.fields.filter Field.isLocalized

def listFields (s : Schema) : List Field :=
  s.fields.filter Field.isList

def relationFields (s : Schema) : List Field :=
  s.fields.filter Field.isRelation

def localizedTable (model : String) : String :=
  model ++ "_translation"

def listTable (model field : String) : String :=
  model ++ Text.upperFirst field ++ "List"

def listOwner : String := "fk"

def listValue : String := "value"

end Schema

structure JoinTable where
  name : String
  owner : String
  related : String
deriving DecidableEq, Repr

/-- A model related to itself has its second column renamed. -/
def JoinTable.of (model field related : String) : JoinTable where
  name := model ++ "Has" ++ Text.upperFirst field
  owner := Text.lowerFirst model
  related :=
    if Text.lowerFirst related = Text.lowerFirst model then
      "related" ++ Text.upperFirst related
    else Text.lowerFirst related

namespace Schema

def generatedKey : Field :=
  { name := "id", type := .integer, primary := true, required := true }

def auxiliaryOf? (model : String) (f : Field) : Option Schema :=
  match f.kind with
  | .manyToMany r =>
    let join := JoinTable.of model f.name r.model
    some {
      name := join.name
      fields := [
        generatedKey,
        { name := join.owner, type := .integer, required := true },
        { name := join.related, type := .integer, required := true }] }
  | .list items =>
    some {
      name := listTable model f.name
      fields := [
        generatedKey,
        { name := listOwner, type := .integer, required := true },
        { name := listValue, type := items, required := true }] }
  | .scalar _ | .oneToOne _ | .oneToMany _ => none

def auxiliary (s : Schema) : List Schema :=
  s.fields.filterMap (auxiliaryOf? s.name)

def checkModelsFrom (seen : List String) : List Schema → Except ModelError Unit
  | [] => .ok ()
  | s :: rest =>
    if s.name ∈ seen then .error (.registeredTwice s.name)
    else if 1 < s.primaryFields.length then .error (.severalKeys s.name)
    else checkModelsFrom (s.name :: seen) rest

def checkField (models : List String) (model : String) (f : Field) : Except ModelError Unit :=
  match f.type, f.relation, f.items with
  | .relation, none, _ => .error (.noRelation model f.name)
  | .relation, some r, _ =>
    if r.model ∈ models then .ok () else .error (.unknownTarget model f.name r.model)
  | .list, _, none => .error (.noItems model f.name)
  | .list, _, some .relation | .list, _, some .list => .error (.nestedItems model f.name)
  | _, _, _ => .ok ()

def checkFields (models : List String) : List Schema → Except ModelError Unit
  | [] => .ok ()
  | s :: rest => do
    s.fields.forM (checkField models s.name)
    checkFields models rest

/-- First names and keys of all models, then their fields. -/
def check (schemas : List Schema) : Except ModelError Unit := do
  checkModelsFrom [] schemas
  checkFields (schemas.map Schema.name) schemas

end Schema

structure Registry where
  schemas : List Schema
  checked : Schema.check schemas = .ok ()

namespace Registry

def ofSchemas (schemas : List Schema) : Except ModelError Registry :=
  match h : Schema.check schemas with
  | .ok () => .ok ⟨schemas, h⟩
  | .error e => .error e

def schema? (r : Registry) (model : String) : Option Schema :=
  r.schemas.find? fun s => s.name == model

def require (r : Registry) (model : String) : Except Failure Schema :=
  match r.schema? model with
  | some s => .ok s
  | none => .error (.validation (.notRegistered model))

/-- The key of a model, also of one that is not registered. -/
def primaryKey (r : Registry) (model : String) : String :=
  match r.schema? model with
  | some s => s.primaryKey
  | none => Schema.defaultKey

def auxiliary (r : Registry) : List Schema :=
  r.schemas.flatMap Schema.auxiliary

end Registry

end EntityStore
