import EntityStore.Server.Cell
import EntityStore.Server.Report
import EntityStore.Session
import EntityStore.Statement

/-!
A pool of at most one connection to a PostgreSQL server. The connection is opened when it is first
needed, remembers the statements it has prepared, and is given up after a failure that breaks it.
-/
namespace EntityStore.Server

structure Prepared where
  columns : List (String × CellType)
  parameters : Nat

structure Connection where
  prepared : List (String × Prepared) := []

structure Pool where
  closed : Bool := false
  /-- How many connections have been opened. -/
  opened : Nat := 0
  connection : Option Connection := none

inductive Stage where
  | prepare
  | execute
deriving DecidableEq, Repr

structure Answer where
  columns : List (String × CellType) := []
  rows : List (List (Option (List UInt8))) := []
  /-- The words that end a statement, the last of them a count of rows. -/
  tag : String := ""
  error : Option (Stage × ServerError) := none
  drop : Option Stage := none
  /-- The number of parameters that the server finds in the statement. -/
  parameters : Nat := 0

inductive CallError where
  | poolClosed
  | dropped
  | parameterCount (expected given : Nat)
  | server (error : ServerError) (sql : String)
deriving DecidableEq, Repr

namespace CallError

def isFatal : CallError → Bool
  | poolClosed | parameterCount .. => false
  | dropped => true
  | server e _ => e.errorClass == .connection

def toExecutionFailure : CallError → ExecutionFailure
  | poolClosed => .connection "failed to acquire connection: Pool has been closed"
  | dropped => .connection "connection closed"
  | parameterCount expected given =>
    .statement ("expected " ++ toString expected ++ " parameters but got " ++ toString given)
  | server e sql =>
    if e.errorClass = .connection then .connection (e.report sql) else .statement (e.report sql)

end CallError

structure Outcome where
  result : Except CallError RowSet
  /-- The server was asked to prepare the statement. -/
  prepared : Bool := false
  /-- The parameters that reached the server. -/
  bound : List (Option (List UInt8)) := []

def bytesOf : Nat → Nat → List UInt8
  | 0, _ => []
  | size + 1, n => bytesOf size (n / 256) ++ [UInt8.ofNat (n % 256)]

def wireForm : Parameter → Option (List UInt8)
  | .null => none
  | .bool b => some [if b then 1 else 0]
  | .int n => some (bytesOf 8 (n % 0x10000000000000000).toNat)
  | .float x => some (bytesOf 8 x.toBits.toNat)
  | .text s => some s.toUTF8.toList
  | .bytes b => some b.toList

def lastWord (s : String) : String :=
  String.ofList (s.toList.reverse.takeWhile fun c => c != ' ').reverse

def affectedRows (tag : String) : Nat :=
  (Text.readUInt64? (lastWord tag)).getD 0

def readRow (columns : List (String × CellType)) (cells : List (Option (List UInt8))) : Record :=
  Record.ofMembers ((columns.zip cells).map fun c => (c.1.1, c.1.2.read c.2))

def rowSet (p : Prepared) (a : Answer) : RowSet :=
  if p.columns.isEmpty then { affected := affectedRows a.tag }
  else { rows := a.rows.map (readRow p.columns), affected := a.rows.length }

def execute (p : Prepared) (sql : String) (params : List Parameter) (a : Answer) : Outcome :=
  if params.length ≠ p.parameters then
    { result := .error (.parameterCount p.parameters params.length) }
  else
    let bound := params.map wireForm
    match a.drop, a.error with
    | some .execute, _ => { result := .error .dropped, bound }
    | _, some (.execute, e) => { result := .error (.server e sql), bound }
    | _, _ => { result := .ok (rowSet p a), bound }

def Connection.call (c : Connection) (s : Statement) (a : Answer) : Outcome × Connection :=
  match c.prepared.lookup s.sql with
  | some p => (execute p s.sql s.params a, c)
  | none =>
    match a.drop, a.error with
    | some .prepare, _ => ({ result := .error .dropped }, c)
    | _, some (.prepare, e) => ({ result := .error (.server e s.sql), prepared := true }, c)
    | _, _ =>
      let p : Prepared := ⟨a.columns, a.parameters⟩
      ({ execute p s.sql s.params a with prepared := true },
        { c with prepared := (s.sql, p) :: c.prepared })

namespace Pool

def acquire (p : Pool) : Connection × Nat :=
  match p.connection with
  | some c => (c, p.opened)
  | none => ({}, p.opened + 1)

def keeps : Except CallError RowSet → Bool
  | .ok _ => true
  | .error e => !e.isFatal

def call (p : Pool) (s : Statement) (a : Answer) : Outcome × Pool :=
  if p.closed then ({ result := .error .poolClosed }, p)
  else
    let (c, opened) := p.acquire
    let (outcome, c) := c.call s a
    (outcome, { p with opened, connection := if keeps outcome.result then some c else none })

def close (p : Pool) : Pool :=
  { p with closed := true, connection := none }

end Pool

end EntityStore.Server
