import EntityStore.Json.Basic
import EntityStore.Text.Basic

/-!
Reading typed values out of a document. A reader gives nothing when the value does not have its
shape. A member may be written once at most, and members nobody asks for are passed over.
-/
namespace EntityStore

inductive Format where
  | json
  | toml
deriving DecidableEq, Repr

/-- Whether a value stands for nothing. Without a null, an empty table or array does. -/
def Format.isNothing : Format → Json → Bool
  | .json, .null => true
  | .toml, .obj [] => true
  | .toml, .arr [] => true
  | _, _ => false

namespace Json

def string? : Json → Option String
  | .str s => some s
  | _ => none

def boolean? : Json → Option Bool
  | .bool b => some b
  | _ => none

def natUpTo? (bound : Nat) : Json → Option Nat
  | .num (.int n) => if 0 ≤ n ∧ n ≤ bound then some n.toNat else none
  | _ => none

def uint64? : Json → Option Nat :=
  natUpTo? Text.maxUInt64

def float? : Json → Option Float
  | .num n => some n.toFloat
  | _ => none

/-- A word, written as a string or as the key of an object whose only value is nothing. -/
def word? (format : Format) : Json → Option String
  | .str s => some s
  | .obj [(s, v)] => if format.isNothing v then some s else none
  | _ => none

def named? {α : Type} (format : Format) (ofName? : String → Option α) (v : Json) :
    Option α := do
  ofName? (← v.word? format)

/-- A word, or the key of an object whose only value is null or an object without members. -/
def tag? : Json → Option String
  | .obj [(s, .obj [])] => some s
  | v => v.word? .json

def tagged? {α : Type} (ofName? : String → Option α) (v : Json) : Option α := do
  ofName? (← v.tag?)

def array? {α : Type} (read : Json → Option α) : Json → Option (List α)
  | .arr items => items.mapM read
  | _ => none

def nullable? {α : Type} (read : Json → Option α) : Json → Option (Option α)
  | .null => some none
  | v => (read v).map some

def members? : Json → Option Record
  | .obj members => some members
  | _ => none

/--
The members of an object, or the values of an array under the names in order. Values without a name
are refused in JSON and passed over in TOML.
-/
def fields? (format : Format) (names : List String) : Json → Option Record
  | .obj members => some members
  | .arr items =>
    if format = .toml ∨ items.length ≤ names.length then some (names.zip items) else none
  | _ => none

end Json

namespace Record

def member? (names : List String) (r : Record) : Option (Option Json) :=
  match r.filter fun m => names.contains m.1 with
  | [] => some none
  | [m] => some (some m.2)
  | _ => none

def required? {α : Type} (names : List String) (read : Json → Option α) (r : Record) :
    Option α := do
  read (← ← member? names r)

def defaulted? {α : Type} (names : List String) (default : α) (read : Json → Option α)
    (r : Record) : Option α := do
  match ← member? names r with
  | none => some default
  | some v => read v

def optional? {α : Type} (names : List String) (read : Json → Option α) (r : Record) :
    Option (Option α) :=
  defaulted? names none (Json.nullable? read) r

end Record

end EntityStore
