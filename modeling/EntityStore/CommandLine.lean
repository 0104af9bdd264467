import EntityStore.Codec.Query
import EntityStore.Codec.Settings
import EntityStore.Invocation
import EntityStore.ModelFile
import EntityStore.Store.Read
import EntityStore.Store.Sync

/-!
What the program does with its arguments, given a way to read files and a session with the server.
It prints a text, or says in one line what has gone wrong, and has the exit code 2 for arguments
that it does not understand and 1 for all other failures.
-/
namespace EntityStore.CommandLine

inductive Problem where
  | settingsUnreadable (path : String)
  | settingsMalformed (path : String)
  | noModels
  | modelsUnreadable (path : String)
  | modelsMalformed (path : String)
  | modelsInvalid (path : String)
  | queryMalformed
  | otherDialect
  | certificateUnreadable (path : String)
  | failure (f : Failure)

def Problem.message : Problem → String
  | settingsUnreadable path => "Failed to read config file: " ++ path
  | settingsMalformed path => "Failed to parse config file: " ++ path
  | noModels => "No models file given (use --models or set `models` in the config)"
  | modelsUnreadable path => "Failed to read models file: " ++ path
  | modelsMalformed path => "Failed to parse models file: " ++ path
  | modelsInvalid path => "Invalid models in " ++ path
  | queryMalformed => "Invalid --query JSON"
  | otherDialect => "only PostgreSQL connections are supported by this binary"
  | certificateUnreadable path => "Failed to read CA certificate file: " ++ path
  | failure f => f.display

structure Surroundings (m : Type → Type) where
  /-- The text of a file, if it can be read. -/
  read : String → m (Option String)
  /-- The file of the settings when none is named. It may be missing. -/
  settingsPath : String
  /-- The server. -/
  session : Session

abbrev Task (m : Type → Type) (α : Type) := ExceptT Problem m α

variable {m : Type → Type} [Monad m]

def orProblem {α : Type} (p : Problem) : Option α → Task m α
  | some x => pure x
  | none => throw p

def settings (s : Surroundings m) (named : Option String) : Task m Settings := do
  let path := named.getD s.settingsPath
  match ← s.read path with
  | some text => orProblem (.settingsMalformed path) (Settings.parse? text)
  | none => if named.isNone then pure {} else throw (.settingsUnreadable path)

/-- The models of the named file, or else of the file in the settings. -/
def registry (s : Surroundings m) (settings : Settings) (named : Option String) :
    Task m Registry := do
  let path ← orProblem .noModels (named.or settings.models)
  let text ← orProblem (.modelsUnreadable path) (← s.read path)
  let schemas ← orProblem (.modelsMalformed path) (ModelFile.schemas? path text)
  match Registry.ofSchemas schemas with
  | .ok r => pure r
  | .error _ => throw (.modelsInvalid path)

/-- The query for a model, whatever model the text names. -/
def query? (model : String) : Option String → Option Query
  | some text => do
    let q ← Query.parse? text
    some { q with model }
  | none => some { model }

def checkConnection (s : Surroundings m) (settings : Settings) : Task m Unit := do
  if settings.dialect ≠ .postgres then throw .otherDialect
  match settings.connection.certificateFile? with
  | some path =>
    let _ ← orProblem (.certificateUnreadable path) (← s.read path)
  | none => pure ()

def inSession {α : Type} (s : Surroundings m) (operation : Run α) : Task m α :=
  match (operation.run.run s.session).1 with
  | .ok x => pure x
  | .error f => throw (.failure f)

def statementLines (r : Registry) (d : Dialect) : List String :=
  (r.syncCommands d).map fun c => (c.statement d).sql ++ ";\n\n"

def perform (s : Surroundings m) (settings : Settings) : Request → Task m String
  | .ddl models dialect => do
    let r ← registry s settings models
    pure (String.join (statementLines r (dialect.getD settings.dialect)))
  | .sync models => do
    let r ← registry s settings models
    checkConnection s settings
    inSession s (Store.init r settings.dialect settings.sync)
    pure ""
  | .find model query => do
    let q ← orProblem .queryMalformed (query? model query)
    let r ← registry s settings none
    checkConnection s settings
    let rows ← inSession s (Store.find r q)
    pure ((Json.arr (rows.map .obj)).prettyText "" ++ "\n")
  | .count model query => do
    let q ← orProblem .queryMalformed (query? model query)
    let r ← registry s settings none
    checkConnection s settings
    let total ← inSession s (Store.count r q)
    pure (toString total ++ "\n")

structure Exit where
  code : Nat := 0
  output : String := ""
  complaint : String := ""

def usage : String := "usage: [--config FILE] ddl|sync|find|count"

def run (s : Surroundings m) (arguments : List String) : m Exit := do
  match Invocation.parse? arguments with
  | none => pure { code := 2, complaint := usage }
  | some i =>
    let task : Task m String := do perform s (← settings s i.config) i.request
    match ← task.run with
    | .ok output => pure { output }
    | .error p => pure { code := 1, complaint := "Error: " ++ p.message }

end EntityStore.CommandLine
