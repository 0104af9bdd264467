import EntityStore.Json.Parser
import EntityStore.Text.Basic

/-!
Cells of a result in the binary form of the PostgreSQL protocol. A cell that does not have the
form of its type reads as null. Days are counted from the first of January 2000 in the Gregorian
calendar, which is also used for the time before it was in force.
-/
namespace EntityStore.Server

structure Date where
  year : Int
  month : Nat
  day : Nat
deriving DecidableEq, Repr

namespace Date

/-- Days from the first of March of the year zero to the first of January 2000. -/
def epoch : Int := 730425

/--
The date so many days after the first of March of the year zero. Years begin in March here, so
that a leap day ends one; 400 years have 146097 days.
-/
def ofMarchDays (days : Int) : Date :=
  let era := days.fdiv 146097
  let dayOfEra := (days.fmod 146097).toNat
  let yearOfEra :=
    (dayOfEra - dayOfEra / 1460 + dayOfEra / 36524 - dayOfEra / 146096) / 365
  let dayOfYear := dayOfEra - (365 * yearOfEra + yearOfEra / 4 - yearOfEra / 100)
  let marchMonth := (5 * dayOfYear + 2) / 153
  let day := dayOfYear - (153 * marchMonth + 2) / 5 + 1
  let month := if marchMonth < 10 then marchMonth + 3 else marchMonth - 9
  let year := yearOfEra + era * 400
  ⟨if month ≤ 2 then year + 1 else year, month, day⟩

def ofDays (days : Int) : Date :=
  ofMarchDays (days + epoch)

def minYear : Int := -262143

def maxYear : Int := 262142

def ofDays? (days : Int) : Option Date :=
  let d := ofDays days
  if minYear ≤ d.year ∧ d.year ≤ maxYear then some d else none

end Date

def padded (width n : Nat) : String :=
  String.ofList (Text.padded width n)

namespace Date

/-- Four digits, and a sign for years that need more or lie before the year zero. -/
def yearText (year : Int) : String :=
  if year < 0 then "-" ++ padded 4 year.natAbs
  else if year ≤ 9999 then padded 4 year.toNat
  else "+" ++ padded 4 year.toNat

def text (d : Date) : String :=
  yearText d.year ++ "-" ++ padded 2 d.month ++ "-" ++ padded 2 d.day

end Date

def microsPerSecond : Nat := 1000000

def microsPerDay : Nat := 86400 * microsPerSecond

/-- The fraction of a second in thousandths where that is exact, else in millionths. -/
def fractionText (micros : Nat) : String :=
  if micros = 0 then ""
  else if micros % 1000 = 0 then "." ++ padded 3 (micros / 1000)
  else "." ++ padded 6 micros

def timeText (micros : Nat) : String :=
  let seconds := micros / microsPerSecond
  padded 2 (seconds / 3600) ++ ":" ++ padded 2 (seconds / 60 % 60) ++ ":" ++
    padded 2 (seconds % 60) ++ fractionText (micros % microsPerSecond)

def timeOfDay (micros : Int) : Nat :=
  (micros.fmod microsPerDay).toNat

def moment? (micros : Int) : Option (Date × Nat) :=
  (Date.ofDays? (micros.fdiv microsPerDay)).map fun d => (d, timeOfDay micros)

inductive CellType where
  | bool
  | int2
  | int4
  | int8
  | float4
  | float8
  | numeric
  | text
  | bytea
  | json
  | jsonb
  | date
  | time
  | timestamp
  | timestamptz
  /-- A type whose cells are not read. -/
  | other
deriving DecidableEq, Repr

def CellType.ofName : String → CellType
  | "bool" => bool
  | "int2" => int2
  | "int4" => int4
  | "int8" => int8
  | "float4" => float4
  | "float8" => float8
  | "numeric" => numeric
  | "text" | "varchar" | "name" | "bpchar" | "unknown" => text
  | "bytea" => bytea
  | "json" => json
  | "jsonb" => jsonb
  | "date" => date
  | "time" => time
  | "timestamp" => timestamp
  | "timestamptz" => timestamptz
  | _ => other

def bigEndian (bytes : List UInt8) : Nat :=
  bytes.foldl (fun n b => 256 * n + b.toNat) 0

def signed (bits n : Nat) : Int :=
  if n < Nat.pow 2 (bits - 1) then n else (n : Int) - Nat.pow 2 bits

def signedCell? (size : Nat) (bytes : List UInt8) : Option Int :=
  if bytes.length = size then some (signed (8 * size) (bigEndian bytes)) else none

def word? (bytes : List UInt8) (place : Nat) : Option Nat :=
  match bytes.drop place with
  | a :: b :: _ => some (bigEndian [a, b])
  | _ => none

/-- The base multiplied with itself, by squaring. The fuel is the exponent. -/
def powerFrom (result base : Float) (n : Nat) : Nat → Float
  | 0 => result
  | fuel + 1 =>
    let result := if n % 2 = 1 then result * base else result
    if n / 2 = 0 then result else powerFrom result (base * base) (n / 2) fuel

def tenThousandTo (k : Int) : Float :=
  let p := powerFrom 1 10000 k.natAbs (k.natAbs + 1)
  if k < 0 then 1 / p else p

def digitSum? (bytes : List UInt8) (weight : Int) (sum : Float) (i : Nat) : Nat → Option Float
  | 0 => some sum
  | n + 1 => do
    let digit ← word? bytes (8 + 2 * i)
    digitSum? bytes weight (sum + Float.ofNat digit * tenThousandTo (weight - i)) (i + 1) n

def numericNegative : Nat := 0x4000

def numericNaN : Nat := 0xC000

/-- A number of base ten thousand: a count of digits, the weight of the first, a sign, a scale. -/
def numericCell? (bytes : List UInt8) : Option Float := do
  let count ← word? bytes 0
  let weight := signed 16 (← word? bytes 2)
  let sign ← word? bytes 4
  if sign = numericNaN then none
  let sum ← digitSum? bytes weight 0 0 count
  some (if sign = numericNegative then -sum else sum)

def textOf? (bytes : List UInt8) : Option String :=
  String.fromUTF8? ⟨bytes.toArray⟩

/-- The text of bytes, or else the bytes as numbers. -/
def bytesToJson (bytes : List UInt8) : Json :=
  match textOf? bytes with
  | some s => .str s
  | none => .arr (bytes.map fun b => .ofNat b.toNat)

def momentText (between behind : String) (moment : Date × Nat) : Json :=
  .str (moment.1.text ++ between ++ timeText moment.2 ++ behind)

def CellType.read? (type : CellType) (bytes : List UInt8) : Option Json :=
  match type with
  | .bool =>
    match bytes with
    | [b] => some (.bool (b != 0))
    | _ => none
  | .int2 => (signedCell? 2 bytes).map .ofInt
  | .int4 => (signedCell? 4 bytes).map .ofInt
  | .int8 => (signedCell? 8 bytes).map .ofInt
  | .float4 =>
    if bytes.length = 4 then
      some (.ofFloat (Float32.ofBits (UInt32.ofNat (bigEndian bytes))).toFloat)
    else none
  | .float8 =>
    if bytes.length = 8 then some (.ofFloat (Float.ofBits (UInt64.ofNat (bigEndian bytes))))
    else none
  | .numeric => (numericCell? bytes).map .ofFloat
  | .text => (textOf? bytes).map .str
  | .bytea => some (bytesToJson bytes)
  | .json => (textOf? bytes).bind Json.parse?
  | .jsonb =>
    match bytes with
    | 1 :: rest => (textOf? rest).bind Json.parse?
    | _ => none
  | .date => do
    let days ← signedCell? 4 bytes
    some (.str (← Date.ofDays? days).text)
  | .time => (signedCell? 8 bytes).map fun micros => .str (timeText (timeOfDay micros))
  | .timestamp => do
    let micros ← signedCell? 8 bytes
    some (momentText " " "" (← moment? micros))
  | .timestamptz => do
    let micros ← signedCell? 8 bytes
    some (momentText "T" "+00:00" (← moment? micros))
  | .other => none

def CellType.read (type : CellType) (cell : Option (List UInt8)) : Json :=
  (cell.bind type.read?).getD .null

end EntityStore.Server
