import EntityStore.Json.Printer
import EntityStore.Text.LetterCase
import EntityStore.Text.Quoted

/-!
What can go wrong in an operation on the store, under which heading it is reported, and the words
of the report.
-/
namespace EntityStore

inductive ModelError where
  | registeredTwice (model : String)
  | severalKeys (model : String)
  | noRelation (model field : String)
  | unknownTarget (model field target : String)
  | noItems (model field : String)
  | nestedItems (model field : String)
deriving DecidableEq, Repr

def ModelError.message : ModelError → String
  | registeredTwice m => "model " ++ m ++ " is registered twice"
  | severalKeys m => "model " ++ m ++ " declares more than one primary field"
  | noRelation m f => "relation field " ++ m ++ "." ++ f ++ " has no relation descriptor"
  | unknownTarget m f t => "relation field " ++ m ++ "." ++ f ++ " targets unknown model " ++ t
  | noItems m f => "list field " ++ m ++ "." ++ f ++ " has no item type"
  | nestedItems m f => "list field " ++ m ++ "." ++ f ++ " must hold scalar items"

inductive Cause where
  /-- The server's own words. -/
  | server (message : String)
  | models (error : ModelError)
  | notRegistered (model : String)
  | noField (model field : String)
  | notRelation (model field : String)
  /-- A value that should lead to a related row has no usable key. -/
  | invalidRelated (field : String)
  | noKeyInValue (model key : String)
  | notIncreasable (model field : String) (delta : Json)
  | noKeyGenerated (model : String)
  | notStored (model field : String)
  /-- A relation asked for that the model, under its alias, does not have. -/
  | unknownRelation (relation model source : String)
  | charset (setting : String)

def Cause.message : Cause → String
  | server m => m
  | models e => e.message
  | notRegistered m => "model " ++ m ++ " is not registered"
  | noField m f => m ++ " has no field " ++ f
  | notRelation m f => m ++ "." ++ f ++ " is not a relation"
  | invalidRelated f => "invalid " ++ f ++ " related model id"
  | noKeyInValue m k => m ++ " value has no " ++ k
  | notIncreasable m f delta => m ++ "." ++ f ++ " cannot be increased by " ++ delta.text
  | noKeyGenerated m => "no key was generated for " ++ m
  | notStored m f => m ++ " was not stored for " ++ f
  | unknownRelation r m a =>
    "relation " ++ r ++ " is not a field of model " ++ m ++ " (as " ++ a ++ ")"
  | charset s => "invalid charset setting: " ++ Text.quoted s

inductive Category where
  | connection
  | query
  | insert
  | update
  | delete
  | validation
deriving DecidableEq, Repr

namespace Category

def name : Category → String
  | connection => "Connection"
  | query => "Query"
  | insert => "Insert"
  | update => "Update"
  | delete => "Delete"
  | validation => "Validation"

def all : List Category :=
  [connection, query, insert, update, delete, validation]

def ofName? (s : String) : Option Category :=
  all.find? fun c => c.name == s

/-- Failed statements are reported under the operation that ran them. -/
def ofOperation : Category → Bool
  | query | insert | update | delete => true
  | connection | validation => false

end Category

structure Failure where
  category : Category
  cause : Cause

namespace Failure

def message (f : Failure) : String :=
  f.cause.message

def within (category : Category) (f : Failure) : Failure :=
  if f.category.ofOperation then { f with category } else f

def display (f : Failure) : String :=
  Text.lowerAscii f.category.name ++ " failure: " ++ f.message

def validation (cause : Cause) : Failure := ⟨.validation, cause⟩

end Failure

def ModelError.toFailure (e : ModelError) : Failure :=
  .validation (.models e)

inductive ExecutionFailure where
  | connection (message : String)
  | statement (message : String)
deriving DecidableEq, Repr

def ExecutionFailure.toFailure : ExecutionFailure → Failure
  | connection message => ⟨.connection, .server message⟩
  | statement message => ⟨.query, .server message⟩

end EntityStore
