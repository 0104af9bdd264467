import EntityStore.Text.Basic

/-!
Decimals `coefficient · 10 ^ exponent` without a sign, the doubles nearest to them, and the decimal
with the fewest digits that reads back as a given double. A finite double has an exact decimal,
because a half is five tenths. Three written forms of a double are here: the free form that text
columns hold, the positional form, and the form of documents, which is positional from `10^-5` up
to `10^16` and has an exponent outside.
-/
namespace EntityStore

structure Decimal where
  coefficient : Nat
  exponent : Int
deriving Repr, DecidableEq

namespace Decimal

def digitsOf (n : Nat) : List Char :=
  Nat.toDigits 10 n

def digits (d : Decimal) : List Char :=
  digitsOf d.coefficient

/-- Where the point stands, counted from before the first digit. -/
def point (d : Decimal) : Int :=
  d.digits.length + d.exponent

def infinity : Float := 1.0 / 0.0

/--
The double nearest to the decimal, ties to even. Beyond `10^310` every decimal is nearest to
infinity and below `10^-330` to zero, so no power larger than these is computed.
-/
def nearest (d : Decimal) : Float :=
  if d.coefficient = 0 then 0
  else if 310 < d.point then infinity
  else if d.point < -330 then 0
  else Float.ofScientific d.coefficient (d.exponent < 0) d.exponent.natAbs

/-- The magnitude of a finite double as `mantissa · 2 ^ exponent`. -/
structure Magnitude where
  mantissa : Nat
  exponent : Int
deriving Repr, DecidableEq

def Magnitude.ofFloat (x : Float) : Magnitude :=
  let bits := x.toBits.toNat % 0x8000000000000000
  if bits < 0x10000000000000 then ⟨bits, -1074⟩
  else ⟨0x10000000000000 + bits % 0x10000000000000, (bits / 0x10000000000000 : Nat) - 1075⟩

/-- The same number: each negative power of two is a power of five in tenths. -/
def ofMagnitude (m : Magnitude) : Decimal :=
  if 0 ≤ m.exponent then ⟨m.mantissa * Nat.pow 2 m.exponent.toNat, 0⟩
  else ⟨m.mantissa * Nat.pow 5 m.exponent.natAbs, m.exponent⟩

def exact (x : Float) : Decimal :=
  ofMagnitude (Magnitude.ofFloat x)

def stripZeros (d : Decimal) : Decimal :=
  if _h : d.coefficient = 0 then ⟨0, 0⟩
  else if d.coefficient % 10 = 0 then stripZeros ⟨d.coefficient / 10, d.exponent + 1⟩
  else d
termination_by d.coefficient
decreasing_by exact Nat.div_lt_self (by omega) (by omega)

/-- The two decimals of `n` digits around `d`, the nearer one first and the even one on a tie. -/
def neighbours (d : Decimal) (n : Nat) : List Decimal :=
  let dropped := d.digits.length - n
  let unit := Nat.pow 10 dropped
  let low := d.coefficient / unit
  let rest := d.coefficient % unit
  let below : Decimal := ⟨low, d.exponent + dropped⟩
  let above : Decimal := ⟨low + 1, d.exponent + dropped⟩
  if 2 * rest < unit || (2 * rest == unit && low % 2 == 0) then [below, above]
  else [above, below]

def readsAs (x : Float) (d : Decimal) : Bool :=
  d.nearest.toBits == x.toBits

/-- Looks at `n + 1`, `n + 2`, … digits, at most `fuel` times. -/
def searchFrom (x : Float) (d : Decimal) (n : Nat) : Nat → Option Decimal
  | 0 => none
  | fuel + 1 =>
    match (neighbours d (n + 1)).find? (readsAs x) with
    | some c => some c
    | none => searchFrom x d (n + 1) fuel

def shortest (x : Float) : Decimal :=
  let magnitude := x.abs
  let d := exact magnitude
  ((searchFrom magnitude d 0 17).getD d).stripZeros

end Decimal

structure Numeral where
  whole : List Char
  fraction : List Char
  exponent : Int
deriving Repr, DecidableEq

namespace Numeral

def splitDigits (cs : List Char) : List Char × List Char :=
  (cs.takeWhile Char.isDigit, cs.dropWhile Char.isDigit)

def decimal (n : Numeral) : Decimal :=
  ⟨Text.natFrom 0 (n.whole ++ n.fraction), n.exponent - n.fraction.length⟩

def splitSign : List Char → Bool × List Char
  | '-' :: rest => (true, rest)
  | '+' :: rest => (false, rest)
  | cs => (false, cs)

def readExponent? (cs : List Char) : Option (Int × List Char) :=
  let (negative, rest) := splitSign cs
  let (digits, rest) := splitDigits rest
  if digits.isEmpty then none
  else
    let n : Int := Text.natFrom 0 digits
    some (if negative then -n else n, rest)

def readScale? : List Char → Option (Int × List Char)
  | 'e' :: rest => readExponent? rest
  | 'E' :: rest => readExponent? rest
  | cs => some (0, cs)

def splitFraction : List Char → List Char × List Char
  | '.' :: rest => splitDigits rest
  | cs => ([], cs)

/-- The free form: digits on at least one side of the point, and nothing after the numeral. -/
def read? (cs : List Char) : Option Numeral := do
  let (whole, rest) := splitDigits cs
  let (fraction, rest) := splitFraction rest
  if whole.isEmpty && fraction.isEmpty then none
  let (exponent, rest) ← readScale? rest
  if rest.isEmpty then some ⟨whole, fraction, exponent⟩ else none

end Numeral

namespace Decimal

def notANumber : Float := 0.0 / 0.0

def readMagnitude? (cs : List Char) : Option Float :=
  let word := (String.ofList cs).toLower
  if word = "inf" || word = "infinity" then some infinity
  else if word = "nan" then some notANumber
  else (Numeral.read? cs).map fun n => n.decimal.nearest

def readTrimmedFloat? (s : String) : Option Float :=
  let (negative, rest) := Numeral.splitSign (Text.trim s).toList
  (readMagnitude? rest).map fun x => if negative then -x else x

def zeros (n : Nat) : List Char :=
  List.replicate n '0'

/-- Digits with a point and no exponent; a whole number has no point. -/
def positional (d : Decimal) : List Char :=
  if 0 ≤ d.exponent then d.digits ++ zeros d.exponent.toNat
  else if 0 < d.point then
    d.digits.take d.point.toNat ++ '.' :: d.digits.drop d.point.toNat
  else '0' :: '.' :: (zeros d.point.natAbs ++ d.digits)

def scientific (d : Decimal) : List Char :=
  let e := d.point - 1
  let mark := if 0 ≤ e then ['e', '+'] else ['e', '-']
  let lead := match d.digits with
    | [] => []
    | [c] => [c]
    | c :: rest => c :: '.' :: rest
  lead ++ mark ++ digitsOf e.natAbs

def signOf (x : Float) : List Char :=
  if x.toBits.toNat < 0x8000000000000000 then [] else ['-']

/-- The form of documents: `1.0`, `0.00001`, `1e+16`, `1.5e-6`. -/
def documentText (x : Float) : String :=
  let d := shortest x
  let body :=
    if d.coefficient = 0 then ['0', '.', '0']
    else if 16 < d.point || d.point < -4 then scientific d
    else if 0 ≤ d.exponent then positional d ++ ['.', '0']
    else positional d
  String.ofList (signOf x ++ body)

def positionalText (x : Float) : String :=
  if x.isNaN then "NaN"
  else if x.isInf then String.ofList (signOf x ++ ['i', 'n', 'f'])
  else String.ofList (signOf x ++ positional (shortest x))

end Decimal

end EntityStore
