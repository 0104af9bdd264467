import EntityStore.Decimal
import EntityStore.Json.Basic

/-!
The tokens of a document. Strings hold no control characters, and a number is scaled from those of
its leading digits that fit 64 bits. A numeral too large for a double and a string with an escape
that names no character have the form of tokens, but no value.
-/
namespace EntityStore.Json

inductive Token where
  | openArray
  | closeArray
  | openObject
  | closeObject
  | comma
  | colon
  | null
  | bool (b : Bool)
  | num (n : Number)
  | str (s : String)
  | hugeNumber
  | brokenString

/-- Leading digits as a number below `2^64`, and how many powers of ten the others are worth. -/
structure Leading where
  significand : Nat
  exponent : Int

namespace Leading

/-- A digit before the point. Once one does not fit, each further digit is a power of ten. -/
def pushWhole (full : Bool) (l : Leading) : List Char → Leading
  | [] => l
  | c :: rest =>
    let next := 10 * l.significand + Text.digitValue c
    if full || Text.maxUInt64 < next then
      pushWhole true ⟨l.significand, l.exponent + 1⟩ rest
    else pushWhole false ⟨next, l.exponent⟩ rest

/-- A digit behind the point. Once one does not fit, the others are without effect. -/
def pushFraction (l : Leading) : List Char → Leading
  | [] => l
  | c :: rest =>
    let next := 10 * l.significand + Text.digitValue c
    if Text.maxUInt64 < next then l
    else pushFraction ⟨next, l.exponent - 1⟩ rest

def ofNumeral (n : Numeral) : Leading :=
  let l := pushFraction (pushWhole false ⟨0, 0⟩ n.whole) n.fraction
  ⟨l.significand, l.exponent + n.exponent⟩

def power (n : Nat) : Float :=
  Float.ofScientific 1 false n

/--
The significand scaled in the arithmetic of doubles, by powers of ten up to `10^308`. Nothing is
read when the result would be infinite.
-/
def scale? (l : Leading) : Option Float :=
  let x := Float.ofNat l.significand
  if 308 < l.exponent then (if l.significand = 0 then some 0 else none)
  else if 0 ≤ l.exponent then
    let y := x * power l.exponent.toNat
    if y.isInf then none else some y
  else if -308 ≤ l.exponent then some (x / power l.exponent.natAbs)
  else if -616 ≤ l.exponent then some (x / power 308 / power (l.exponent.natAbs - 308))
  else some 0

end Leading

/-- An integer in range is kept as it is, and `-0` and all other numerals become doubles. -/
def number? (negative : Bool) (integral : Bool) (n : Numeral) : Option Number :=
  let value := Text.natFrom 0 n.whole
  if integral && !negative && value ≤ Text.maxUInt64 then some (.int value)
  else if integral && negative && 0 < value && value ≤ Text.maxInt64 + 1 then
    some (.int (-(value : Int)))
  else (Leading.ofNumeral n).scale?.map fun x => .float (if negative then -x else x)

def scanWhole? (cs : List Char) : Option (List Char × List Char) :=
  match Numeral.splitDigits cs with
  | ([], _) => none
  | (['0'], rest) => some (['0'], rest)
  | ('0' :: _, _) => none
  | (digits, rest) => some (digits, rest)

def scanFraction? : List Char → Option (List Char × List Char)
  | '.' :: rest =>
    match Numeral.splitDigits rest with
    | ([], _) => none
    | (digits, rest) => some (digits, rest)
  | cs => some ([], cs)

def hasExponent : List Char → Bool
  | c :: _ => c == 'e' || c == 'E'
  | [] => false

def scanNumber? (cs : List Char) : Option (Token × List Char) := do
  let (negative, unsigned) := match cs with
    | '-' :: rest => (true, rest)
    | _ => (false, cs)
  let (whole, afterWhole) ← scanWhole? unsigned
  let (fraction, afterFraction) ← scanFraction? afterWhole
  let (exponent, rest) ← Numeral.readScale? afterFraction
  match number? negative (fraction.isEmpty && !hasExponent afterFraction)
      ⟨whole, fraction, exponent⟩ with
  | some n => some (.num n, rest)
  | none => some (.hugeNumber, rest)

def hexValue? (c : Char) : Option Nat :=
  if '0' ≤ c ∧ c ≤ '9' then some (c.toNat - '0'.toNat)
  else if 'a' ≤ c ∧ c ≤ 'f' then some (c.toNat - 'a'.toNat + 10)
  else if 'A' ≤ c ∧ c ≤ 'F' then some (c.toNat - 'A'.toNat + 10)
  else none

def hexQuad? (a b c d : Char) : Option Nat := do
  some (4096 * (← hexValue? a) + 256 * (← hexValue? b) + 16 * (← hexValue? c) + (← hexValue? d))

def isHighSurrogate (n : Nat) : Bool := 0xD800 ≤ n && n ≤ 0xDBFF

def isLowSurrogate (n : Nat) : Bool := 0xDC00 ≤ n && n ≤ 0xDFFF

def plainEscape? : Char → Option Char
  | '"' => some '"'
  | '\\' => some '\\'
  | '/' => some '/'
  | 'b' => some '\x08'
  | 'f' => some '\x0c'
  | 'n' => some '\n'
  | 'r' => some '\r'
  | 't' => some '\t'
  | _ => none

def pairChar (high low : Nat) : Char :=
  Char.ofNat (0x10000 + 0x400 * (high - 0xD800) + (low - 0xDC00))

def scanString? : List Char → Option (List Char × List Char)
  | [] => none
  | '"' :: rest => some ([], rest)
  | '\\' :: 'u' :: a :: b :: c :: d :: rest =>
    match hexQuad? a b c d with
    | none => none
    | some n =>
      if isLowSurrogate n then none
      else if isHighSurrogate n then
        match rest with
        | '\\' :: 'u' :: a :: b :: c :: d :: rest =>
          match hexQuad? a b c d with
          | none => none
          | some m =>
            if isLowSurrogate m then (scanString? rest).map fun r => (pairChar n m :: r.1, r.2)
            else none
        | _ => none
      else (scanString? rest).map fun r => (Char.ofNat n :: r.1, r.2)
  | '\\' :: c :: rest =>
    match plainEscape? c with
    | none => none
    | some e => (scanString? rest).map fun r => (e :: r.1, r.2)
  | c :: rest =>
    if c.toNat < 0x20 || c == '\\' then none
    else (scanString? rest).map fun r => (c :: r.1, r.2)

/-- What follows the closing quote of a string, whatever its escapes by number name. -/
def skipString? : List Char → Option (List Char)
  | [] => none
  | '"' :: rest => some rest
  | '\\' :: 'u' :: a :: b :: c :: d :: rest =>
    match hexQuad? a b c d with
    | none => none
    | some _ => skipString? rest
  | '\\' :: c :: rest =>
    match plainEscape? c with
    | none => none
    | some _ => skipString? rest
  | c :: rest => if c.toNat < 0x20 || c == '\\' then none else skipString? rest

def stringToken? (cs : List Char) : Option (Token × List Char) :=
  match scanString? cs with
  | some (s, rest) => some (.str (String.ofList s), rest)
  | none => (skipString? cs).map fun rest => (.brokenString, rest)

def isSpace (c : Char) : Bool :=
  c == ' ' || c == '\n' || c == '\t' || c == '\r'

def scanToken? : List Char → Option (Token × List Char)
  | '[' :: rest => some (.openArray, rest)
  | ']' :: rest => some (.closeArray, rest)
  | '\x7b' :: rest => some (.openObject, rest)
  | '\x7d' :: rest => some (.closeObject, rest)
  | ',' :: rest => some (.comma, rest)
  | ':' :: rest => some (.colon, rest)
  | 'n' :: 'u' :: 'l' :: 'l' :: rest => some (.null, rest)
  | 't' :: 'r' :: 'u' :: 'e' :: rest => some (.bool true, rest)
  | 'f' :: 'a' :: 'l' :: 's' :: 'e' :: rest => some (.bool false, rest)
  | '"' :: rest => stringToken? rest
  | cs => scanNumber? cs

def tokensWithin? : Nat → List Char → Option (List Token)
  | 0, _ => none
  | fuel + 1, cs =>
    match cs.dropWhile isSpace with
    | [] => some []
    | c :: rest => do
      let (t, rest) ← scanToken? (c :: rest)
      let ts ← tokensWithin? fuel rest
      some (t :: ts)

/-- All tokens of a text. Each takes at least one character. -/
def tokens? (cs : List Char) : Option (List Token) :=
  tokensWithin? (cs.length + 1) cs

end EntityStore.Json
