import EntityStore.Codec.Charset
import EntityStore.Session

/-!
Making the tables: first the character set of the database, then every table of every model.
-/
namespace EntityStore

def Table.syncCommands (t : Table) : List Command :=
  [.drop t.name, .create t]

def Registry.syncCommands (r : Registry) (d : Dialect) : List Command :=
  (r.tables d).flatMap Table.syncCommands

def CharsetSettings.commands (o : CharsetSettings) (d : Dialect) :
    Except Failure (List Command) := do
  match ← o.alterSql? d with
  | some sql => .ok [.raw ⟨sql, []⟩]
  | none => .ok []

namespace Store

def init (r : Registry) (d : Dialect) (o : CharsetSettings) : Run Unit := do
  let first ← Run.ofExcept (o.commands d)
  Run.sendAll (first ++ r.syncCommands d)

def query (s : Statement) : Run RowSet :=
  Run.send (.raw s)

end Store

end EntityStore
