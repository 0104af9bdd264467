/-!
Values of documents. An object lists its members in the order of their keys, each key once;
`Json.canonical` brings the members of any object into that order, the last member of a key
counting. A record is such a list of members.
-/
namespace EntityStore

/-- An integer from `-2^63` to `2^64 - 1`, or a double. -/
inductive Number where
  | int (n : Int)
  | float (x : Float)
deriving DecidableEq

inductive Json where
  | null
  | bool (b : Bool)
  | num (n : Number)
  | str (s : String)
  | arr (items : List Json)
  | obj (members : List (String × Json))

instance : Inhabited Json := ⟨.null⟩

abbrev Record := List (String × Json)

namespace Record

def empty : Record := []

def get? (key : String) : Record → Option Json
  | [] => none
  | (k, v) :: rest => if k = key then some v else get? key rest

def contains (r : Record) (key : String) : Bool :=
  (get? key r).isSome

def set (key : String) (value : Json) : Record → Record
  | [] => [(key, value)]
  | (k, v) :: rest =>
    if key = k then (key, value) :: rest
    else if key < k then (key, value) :: (k, v) :: rest
    else (k, v) :: set key value rest

def erase (key : String) : Record → Record
  | [] => []
  | (k, v) :: rest => if k = key then rest else (k, v) :: erase key rest

def update (key : String) (f : Json → Json) : Record → Record
  | [] => []
  | (k, v) :: rest => if k = key then (k, f v) :: rest else (k, v) :: update key f rest

def ofMembers (members : List (String × Json)) : Record :=
  members.foldl (fun r m => set m.1 m.2 r) empty

end Record

namespace Number

def int64? : Number → Option Int
  | .int n => if n < 0x8000000000000000 then some n else none
  | .float _ => none

def uint64? : Number → Option Nat
  | .int n => if 0 ≤ n then some n.toNat else none
  | .float _ => none

def toFloat : Number → Float
  | .int n => if 0 ≤ n then Float.ofNat n.toNat else -Float.ofNat n.natAbs
  | .float x => x

end Number

namespace Json

def ofNat (n : Nat) : Json := .num (.int n)

def ofInt (n : Int) : Json := .num (.int n)

/-- A double, or null where the double is not finite. -/
def ofFloat (x : Float) : Json :=
  if x.isFinite then .num (.float x) else .null

def ofOption {α : Type} (write : α → Json) : Option α → Json
  | some x => write x
  | none => .null

def isNull : Json → Bool
  | .null => true
  | _ => false

def isNumber : Json → Bool
  | .num _ => true
  | _ => false

def get? (key : String) : Json → Option Json
  | .obj members => Record.get? key members
  | _ => none

mutual

/-- The value with every object in order and without doubles that are not finite. -/
def canonical : Json → Json
  | .null => .null
  | .bool b => .bool b
  | .num (.int n) => .num (.int n)
  | .num (.float x) => ofFloat x
  | .str s => .str s
  | .arr items => .arr (canonicalItems items)
  | .obj members => .obj (Record.ofMembers (canonicalMembers members))

def canonicalItems : List Json → List Json
  | [] => []
  | v :: rest => canonical v :: canonicalItems rest

def canonicalMembers : List (String × Json) → List (String × Json)
  | [] => []
  | (k, v) :: rest => (k, canonical v) :: canonicalMembers rest

end

end Json

end EntityStore
