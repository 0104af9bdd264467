import EntityStore.Failure

/-!
Errors of a PostgreSQL server: their class by the first characters of the code, the place in the
statement that they point to, and the lines in which they are reported.
-/
namespace EntityStore.Server

structure ServerError where
  message : String
  code : String
  detail : Option String := none
  hint : Option String := none
  constraint : Option String := none
  /-- The place in the statement, counted from one. -/
  position : Option Nat := none
deriving DecidableEq, Repr

inductive ErrorClass where
  | syntactic
  | semantic
  | execution
  | transaction
  | connection
  | unknown
deriving DecidableEq, Repr

namespace ErrorClass

def title : ErrorClass → String
  | syntactic => "Syntax Error"
  | semantic => "Semantic Error"
  | execution => "Execution Error"
  | transaction => "Transaction Error"
  | connection => "Connection Error"
  | unknown => "Error"

/-- The class of a code, which its first two characters decide in most cases. -/
def ofCode (code : String) : ErrorClass :=
  match code.toList with
  | '4' :: '2' :: _ => if code = "42601" || code = "42000" then syntactic else semantic
  | '2' :: '2' :: _ | '2' :: '3' :: _ => execution
  | '2' :: '5' :: _ | '4' :: '0' :: _ => transaction
  | '0' :: '8' :: _ | '5' :: '7' :: 'P' :: _ => connection
  | '5' :: '3' :: _ | '5' :: '4' :: _ | '5' :: '5' :: _ | '5' :: '7' :: _ => execution
  | _ => unknown

end ErrorClass

structure TextPlace where
  line : Nat
  column : Nat
deriving DecidableEq, Repr

/-- The place after the characters that begin before the byte `target`. -/
def placeFrom (place : TextPlace) (offset target : Nat) : List Char → TextPlace
  | [] => place
  | c :: rest =>
    if target ≤ offset then place
    else
      let place :=
        if c = '\n' then ⟨place.line + 1, 1⟩ else ⟨place.line, place.column + 1⟩
      placeFrom place (offset + c.utf8Size) target rest

/-- Line and column of a position counted in bytes from one. -/
def placeOf (text : String) (position : Nat) : TextPlace :=
  placeFrom ⟨1, 1⟩ 0 (position - 1) text.toList

namespace ServerError

def errorClass (e : ServerError) : ErrorClass :=
  .ofCode e.code

def placeLine (sql : String) (position : Nat) : String :=
  let p := placeOf sql position
  "  at line " ++ toString p.line ++ ", column " ++ toString p.column

def line (title : String) (s : String) : String :=
  "  " ++ title ++ ": " ++ s

def lines (e : ServerError) (sql : String) : List String :=
  [e.errorClass.title ++ ": " ++ e.message] ++
    (e.position.map (placeLine sql)).toList ++
    [line "SQLSTATE" e.code] ++
    (e.detail.map (line "Detail")).toList ++
    (e.hint.map (line "Hint")).toList ++
    (e.constraint.map (line "Constraint")).toList

def report (e : ServerError) (sql : String) : String :=
  Text.join "\n" (e.lines sql)

end ServerError

end EntityStore.Server
