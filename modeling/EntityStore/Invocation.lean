import EntityStore.Dialect

/-!
The arguments of the program. Every option has one value, in the same argument behind `=` or in the
next one, and behind `--` there are no options. The option `config` may stand before the command
as well as behind it.
-/
namespace EntityStore

inductive Request where
  /-- Print the statements that make all tables anew. -/
  | ddl (models : Option String) (dialect : Option Dialect)
  /-- Make all tables anew. -/
  | sync (models : Option String)
  /-- Print the rows of a query. -/
  | find (model : String) (query : Option String)
  /-- Print how many rows a query has. -/
  | count (model : String) (query : Option String)
deriving DecidableEq, Repr

structure Invocation where
  /-- The file of the settings. -/
  config : Option String
  request : Request
deriving DecidableEq, Repr

namespace Invocation

inductive Shape where
  | separator
  | option (name : String) (value : Option String)
  | dashed
  | plain

/-- A dash alone is a plain argument. -/
def shapeOf (s : String) : Shape :=
  match s.toList with
  | ['-', '-'] => .separator
  | '-' :: '-' :: rest =>
    let name := String.ofList (rest.takeWhile fun c => c != '=')
    match rest.dropWhile fun c => c != '=' with
    | _ :: value => .option name (some (String.ofList value))
    | [] => .option name none
  | '-' :: _ :: _ => .dashed
  | _ => .plain

def isPlain (s : String) : Bool :=
  match shapeOf s with
  | .plain => true
  | _ => false

inductive Word where
  | option (name value : String)
  | plain (s : String)
  /-- An argument behind `--`, which cannot name the command. -/
  | behind (s : String)

def words? : List String → Option (List Word)
  | [] => some []
  | s :: rest =>
    match shapeOf s with
    | .separator => some (rest.map .behind)
    | .option name (some value) => (words? rest).map (.option name value :: ·)
    | .option name none =>
      match rest with
      | value :: rest =>
        if isPlain value then (words? rest).map (.option name value :: ·) else none
      | [] => none
    | .dashed => none
    | .plain => (words? rest).map (.plain s :: ·)

namespace Word

def isOption : Word → Bool
  | option .. => true
  | plain _ | behind _ => false

def option? : Word → Option (String × String)
  | option name value => some (name, value)
  | plain _ | behind _ => none

def operand? : Word → Option String
  | option .. => none
  | plain s | behind s => some s

end Word

abbrev Options := List (String × String)

namespace Options

def value? (name : String) (os : Options) : Option (Option String) :=
  match os.filter fun o => o.1 == name with
  | [] => some none
  | [o] => some (some o.2)
  | _ => none

/-- The value of an option that names a file; no file has the empty name. -/
def path? (name : String) (os : Options) : Option (Option String) := do
  match ← value? name os with
  | some "" => none
  | path => some path

def dialect? (os : Options) : Option (Option Dialect) := do
  match ← value? "dialect" os with
  | some name => do some (some (← Dialect.ofAlias? name))
  | none => some none

def among (names : List String) (os : Options) : Bool :=
  os.all fun o => names.contains o.1

end Options

def request? (command : String) (operands : List String) (os : Options) : Option Request :=
  match command, operands with
  | "ddl", [] =>
    if os.among ["config", "models", "dialect"] then do
      some (.ddl (← os.path? "models") (← os.dialect?))
    else none
  | "sync", [] =>
    if os.among ["config", "models"] then do some (.sync (← os.path? "models")) else none
  | "find", [model] =>
    if os.among ["config", "query"] then do some (.find model (← os.value? "query")) else none
  | "count", [model] =>
    if os.among ["config", "query"] then do some (.count model (← os.value? "query")) else none
  | _, _ => none

/-- The settings named behind the command count before those named in front of it. -/
def parse? (arguments : List String) : Option Invocation := do
  let words ← words? arguments
  let first : Options := (words.takeWhile Word.isOption).filterMap Word.option?
  match words.dropWhile Word.isOption with
  | .plain command :: rest =>
    let second : Options := rest.filterMap Word.option?
    if first.among ["config"] then do
      let outer ← first.path? "config"
      let inner ← second.path? "config"
      some {
        config := inner.or outer
        request := ← request? command (rest.filterMap Word.operand?) second }
    else none
  | _ => none

end Invocation

end EntityStore
