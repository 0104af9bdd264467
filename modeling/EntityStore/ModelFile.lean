import EntityStore.Codec.Field
import EntityStore.Json.Parser
import EntityStore.Schema
import EntityStore.Toml.Document

/-!
Files of models. The name of a file says how it is read: as JSON if its extension is exactly
`json`, and else as TOML.
-/
namespace EntityStore.ModelFile

def reversedName (path : String) : List Char :=
  (path.toList.reverse.dropWhile fun c => c == '/').takeWhile fun c => c != '/'

/-- What follows the last point of a name, if something stands before that point. -/
def extension? (path : String) : Option String :=
  let name := reversedName path
  match name.dropWhile fun c => c != '.' with
  | _ :: _ :: _ => some (String.ofList (name.takeWhile fun c => c != '.').reverse)
  | _ => none

def format (path : String) : Format :=
  if extension? path = some "json" then .json else .toml

inductive Part where
  | file
  | models
  | model
  | whole
deriving DecidableEq, Repr

namespace Part

def member? : Part → String → Option Part
  | file, key => if key = "models" then some models else none
  | model, key => if ["name", "fields"].contains key then some whole else none
  | _, _ => some whole

def item? : Part → Nat → Option Part
  | file, _ => some models
  | models, _ => some model
  | _, _ => some whole

end Part

def outline : Json.Outline Part :=
  ⟨.file, Part.member?, Part.item?⟩

def document? : Format → String → Option Json
  | .json, text => Json.parseWanted? outline.wants text
  | .toml, text => Toml.parse? text

def schemas? (path text : String) : Option (List Schema) := do
  let r ← (← document? (format path) text).fields? (format path) ["models"]
  r.defaulted? ["models"] [] (Schema.listOfDocument? (format path))

end EntityStore.ModelFile
