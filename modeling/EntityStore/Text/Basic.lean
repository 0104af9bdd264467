/-!
Texts joined from parts, blanks at their ends, and integers of 64 bits in decimal text. A sign may
come before an integer, zeros may lead, and a numeral out of range is not read.
-/
namespace EntityStore.Text

def join (separator : String) : List String → String
  | [] => ""
  | [s] => s
  | s :: t :: rest => s ++ separator ++ join separator (t :: rest)

/-- The 25 code points with the property White_Space. -/
def isBlank (c : Char) : Bool :=
  let n := c.toNat
  (0x9 ≤ n && n ≤ 0xD) || n == 0x20 || n == 0x85 || n == 0xA0 || n == 0x1680 ||
    (0x2000 ≤ n && n ≤ 0x200A) || n == 0x2028 || n == 0x2029 || n == 0x202F ||
    n == 0x205F || n == 0x3000

def trimLeft (cs : List Char) : List Char :=
  cs.dropWhile isBlank

def trim (s : String) : String :=
  String.ofList (trimLeft (trimLeft s.toList).reverse).reverse

def digitValue (c : Char) : Nat :=
  c.toNat - 48

/-- The number that the digits write, after those already read. -/
def natFrom (start : Nat) (digits : List Char) : Nat :=
  digits.foldl (fun n c => 10 * n + digitValue c) start

def padded (width n : Nat) : List Char :=
  let digits := Nat.toDigits 10 n
  List.replicate (width - digits.length) '0' ++ digits

/-- At least one digit, and nothing else. -/
def readNat? (cs : List Char) : Option Nat :=
  if !cs.isEmpty && cs.all Char.isDigit then some (natFrom 0 cs) else none

def maxInt64 : Nat := 0x7FFFFFFFFFFFFFFF

def maxUInt16 : Nat := 0xFFFF

def maxUInt32 : Nat := 0xFFFFFFFF

def maxUInt64 : Nat := 0xFFFFFFFFFFFFFFFF

/-- A signed numeral from `-2^63` to `2^63 - 1`. -/
def readInt64? (s : String) : Option Int :=
  match s.toList with
  | '-' :: rest => do
    let n ← readNat? rest
    if n ≤ maxInt64 + 1 then some (-(n : Int)) else none
  | '+' :: rest => do
    let n ← readNat? rest
    if n ≤ maxInt64 then some n else none
  | cs => do
    let n ← readNat? cs
    if n ≤ maxInt64 then some n else none

def readUInt64? (s : String) : Option Nat :=
  let digits := match s.toList with
    | '+' :: rest => rest
    | cs => cs
  do
    let n ← readNat? digits
    if n ≤ maxUInt64 then some n else none

def readTrimmedInt64? (s : String) : Option Int :=
  readInt64? (trim s)

end EntityStore.Text
