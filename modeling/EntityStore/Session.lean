import EntityStore.Command
import EntityStore.Failure

/-!
A session with a server: the replies still to come and the commands sent so far. A server that has
no more replies answers every command with success and no rows.
-/
namespace EntityStore

/-- What a server gives back for a command. Its numbers are words of 64 bits, the count of rows one
without a sign. -/
structure RowSet where
  rows : List Record := []
  affected : Nat := 0
  /-- The key of the first inserted row, where the server reports it beside the rows. -/
  insertId : Option Int := none

inductive Reply where
  | rows (result : RowSet)
  | failure (f : ExecutionFailure)

structure Session where
  replies : List Reply := []
  /-- The last command first. -/
  sent : List Command := []

/-- An operation in a session. What was sent stays sent when the operation fails. -/
abbrev Run (α : Type) := ExceptT Failure (StateM Session) α

namespace Run

def ofExcept {α : Type} (e : Except Failure α) : Run α :=
  fun s => (e, s)

def fail {α : Type} (f : Failure) : Run α :=
  fun s => (.error f, s)

def send (c : Command) : Run RowSet := fun s =>
  match s.replies with
  | [] => (.ok {}, { s with sent := c :: s.sent })
  | .rows result :: rest => (.ok result, ⟨rest, c :: s.sent⟩)
  | .failure f :: rest => (.error f.toFailure, ⟨rest, c :: s.sent⟩)

def sendAll : List Command → Run Unit
  | [] => pure ()
  | c :: rest => do
    let _ ← send c
    sendAll rest

def within {α : Type} (category : Category) (m : Run α) : Run α := fun s =>
  match m s with
  | (.ok x, s) => (.ok x, s)
  | (.error f, s) => (.error (f.within category), s)

/-- Runs an operation and goes on whether it succeeds or not. -/
def ignoringFailure (m : Run Unit) : Run Unit := fun s =>
  (.ok (), (m s).2)

def inOrder : List (Run Unit) → Run Unit
  | [] => pure ()
  | m :: rest => do
    m
    inOrder rest

end Run

end EntityStore
