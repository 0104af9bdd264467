import EntityStore.Decimal
import EntityStore.Json.Basic
import EntityStore.Json.Printer
import EntityStore.Json.Token
import EntityStore.Text.Basic

/-!
Values of TOML that hold no others, and the blanks, line ends and comments between them.

In double quotes a backslash begins an escape, in single quotes every character stands for itself,
and three quotes of a kind enclose a string of several lines.

A date or time is kept as the text of its parts, brought into one form: a `T` between date and time,
a fraction of at most nine digits that does not end in zero, and `Z` or hours and minutes for the
distance from universal time.

Integers are signed and of 64 bits. A double that is too large is refused, one too far below zero is
infinite, and words stand for infinity and for what is not a number. An underscore may stand between
two digits.
-/
namespace EntityStore.Toml

abbrev Reader (α : Type) := List Char → Option (α × List Char)

def isBlank (c : Char) : Bool :=
  c == ' ' || c == '\t'

def skipBlanks (cs : List Char) : List Char :=
  cs.dropWhile isBlank

/-- A character of comments and of strings on one line: any but a control, or a tab. -/
def isPlain (c : Char) : Bool :=
  c == '\t' || (0x20 ≤ c.toNat && c.toNat != 0x7F)

def newline? : List Char → Option (List Char)
  | '\n' :: rest => some rest
  | '\r' :: '\n' :: rest => some rest
  | _ => none

def skipComment : List Char → List Char
  | '#' :: rest => rest.dropWhile isPlain
  | cs => cs

def endLine? (cs : List Char) : Option (List Char) :=
  match skipComment (skipBlanks cs) with
  | [] => some []
  | cs => newline? cs

def skipLines : List Char → List Char
  | ' ' :: rest => skipLines rest
  | '\t' :: rest => skipLines rest
  | '\n' :: rest => skipLines rest
  | '\r' :: '\n' :: rest => skipLines rest
  | cs => cs

/-- What follows blanks, line ends and comments; each comment has its line end. -/
def skipSpace? (inComment : Bool) : List Char → Option (List Char)
  | '\n' :: rest => skipSpace? false rest
  | '\r' :: '\n' :: rest => skipSpace? false rest
  | c :: rest =>
    if inComment then (if isPlain c then skipSpace? true rest else none)
    else if isBlank c then skipSpace? false rest
    else if c = '#' then skipSpace? true rest
    else some (c :: rest)
  | [] => if inComment then none else some []

def codePoint? (digits : Nat) (cs : List Char) : Option (Char × List Char) := do
  let values ← (cs.take digits).mapM Json.hexValue?
  if values.length < digits then none
  let n := values.foldl (fun n d => 16 * n + d) 0
  if n.isValidChar then some (Char.ofNat n, cs.drop digits) else none

def escape? : Reader Char
  | 'b' :: rest => some ('\x08', rest)
  | 't' :: rest => some ('\t', rest)
  | 'n' :: rest => some ('\n', rest)
  | 'f' :: rest => some ('\x0c', rest)
  | 'r' :: rest => some ('\r', rest)
  | '"' :: rest => some ('"', rest)
  | '\\' :: rest => some ('\\', rest)
  | 'u' :: rest => codePoint? 4 rest
  | 'U' :: rest => codePoint? 8 rest
  | _ => none

def prepend (c : Char) : Option (List Char × List Char) → Option (List Char × List Char) :=
  Option.map fun r => (c :: r.1, r.2)

def basicWithin? : Nat → Reader (List Char)
  | 0, _ => none
  | _, [] => none
  | _, '"' :: rest => some ([], rest)
  | fuel + 1, '\\' :: rest => do
    let (c, rest) ← escape? rest
    prepend c (basicWithin? fuel rest)
  | fuel + 1, c :: rest => if isPlain c then prepend c (basicWithin? fuel rest) else none

def basic? (cs : List Char) : Option (List Char × List Char) :=
  basicWithin? (cs.length + 1) cs

def literal? : Reader (List Char)
  | [] => none
  | '\x27' :: rest => some ([], rest)
  | c :: rest => if isPlain c then prepend c (literal? rest) else none

/-- The end of a string of several lines, with the one or two quotes that may still belong to it. -/
def close? (quote : Char) : Reader (List Char)
  | a :: b :: c :: rest =>
    if a = quote ∧ b = quote ∧ c = quote then
      match rest with
      | d :: rest =>
        if d = quote then
          match rest with
          | e :: rest => if e = quote then some ([d, e], rest) else some ([d], e :: rest)
          | [] => some ([d], [])
        else some ([], d :: rest)
      | [] => some ([], [])
    else none
  | _ => none

/--
The characters up to three closing quotes. Line ends become line feeds, and between double quotes
a backslash at the end of a line removes all blanks and line ends behind it.
-/
def linesWithin? (quote : Char) : Nat → Reader (List Char)
  | 0, _ => none
  | fuel + 1, cs =>
    match close? quote cs with
    | some r => some r
    | none =>
      match cs with
      | '\n' :: rest => prepend '\n' (linesWithin? quote fuel rest)
      | '\r' :: '\n' :: rest => prepend '\n' (linesWithin? quote fuel rest)
      | c :: rest =>
        if c = '\\' ∧ quote = '"' then
          match newline? (skipBlanks rest) with
          | some rest => linesWithin? quote fuel (skipLines rest)
          | none => do
            let (c, rest) ← escape? rest
            prepend c (linesWithin? quote fuel rest)
        else if isPlain c then prepend c (linesWithin? quote fuel rest)
        else none
      | [] => none

/-- A string of several lines behind its opening quotes; a line end right there is left out. -/
def lines? (quote : Char) (cs : List Char) : Option (List Char × List Char) :=
  linesWithin? quote (cs.length + 1) ((newline? cs).getD cs)

def string? (cs : List Char) : Option (String × List Char) :=
  let read := match cs with
    | '"' :: '"' :: '"' :: rest => lines? '"' rest
    | '\x27' :: '\x27' :: '\x27' :: rest => lines? '\x27' rest
    | '"' :: rest => basic? rest
    | '\x27' :: rest => literal? rest
    | _ => none
  read.map fun r => (String.ofList r.1, r.2)

def escapeChar (c : Char) : List Char :=
  if c = '\x7f' then ['\\', 'u', '0', '0', '7', 'f'] else Json.escapeChar c

def quoted (s : String) : String :=
  String.ofList ('"' :: (s.toList.flatMap escapeChar ++ ['"']))

def fixed? (digits low high : Nat) (cs : List Char) : Option (Nat × List Char) :=
  let given := cs.take digits
  let n := Text.natFrom 0 given
  if given.length = digits ∧ given.all Char.isDigit ∧ low ≤ n ∧ n ≤ high then
    some (n, cs.drop digits)
  else none

def exactly? (c : Char) : List Char → Option (List Char)
  | d :: rest => if d = c then some rest else none
  | [] => none

def isLeapYear (year : Nat) : Bool :=
  year % 4 == 0 && (year % 100 != 0 || year % 400 == 0)

def daysOfMonth (year month : Nat) : Nat :=
  if month = 2 then (if isLeapYear year then 29 else 28)
  else if month = 4 ∨ month = 6 ∨ month = 9 ∨ month = 11 then 30
  else 31

def date? (cs : List Char) : Option (List Char × List Char) := do
  let (year, cs) ← fixed? 4 0 9999 cs
  let (month, cs) ← fixed? 2 1 12 (← exactly? '-' cs)
  let (day, cs) ← fixed? 2 1 (daysOfMonth year month) (← exactly? '-' cs)
  some (Text.padded 4 year ++ '-' :: (Text.padded 2 month ++ '-' :: Text.padded 2 day), cs)

def stripZeros (digits : List Char) : List Char :=
  (digits.reverse.dropWhile fun c => c == '0').reverse

/-- A fraction of a second; what is beyond nine digits is cut off. -/
def fractionOfSecond (cs : List Char) : List Char × List Char :=
  match cs with
  | '.' :: rest =>
    match rest.takeWhile Char.isDigit with
    | [] => ([], cs)
    | digits =>
      let kept := stripZeros (digits.take 9)
      (if kept.isEmpty then [] else '.' :: kept, rest.dropWhile Char.isDigit)
  | _ => ([], cs)

def time? (cs : List Char) : Option (List Char × List Char) := do
  let (hour, cs) ← fixed? 2 0 23 cs
  let (minute, cs) ← fixed? 2 0 59 (← exactly? ':' cs)
  let (second, cs) ← fixed? 2 0 60 (← exactly? ':' cs)
  let (fraction, cs) := fractionOfSecond cs
  let minutes := Text.padded 2 minute ++ ':' :: (Text.padded 2 second ++ fraction)
  some (Text.padded 2 hour ++ ':' :: minutes, cs)

/-- Hours and minutes from universal time. No distance at all is written with a plus sign. -/
def distance? (sign : Char) (cs : List Char) : Option (List Char × List Char) := do
  let (hours, cs) ← fixed? 2 0 23 cs
  let (minutes, cs) ← fixed? 2 0 59 (← exactly? ':' cs)
  let sign := if hours = 0 ∧ minutes = 0 then '+' else sign
  some (sign :: (Text.padded 2 hours ++ ':' :: Text.padded 2 minutes), cs)

def offset? : Reader (List Char)
  | 'Z' :: rest => some (['Z'], rest)
  | 'z' :: rest => some (['Z'], rest)
  | '+' :: rest => distance? '+' rest
  | '-' :: rest => distance? '-' rest
  | cs => some ([], cs)

def isTimeMark (c : Char) : Bool :=
  c == 'T' || c == 't' || c == ' '

def timeOfDay? : Reader (List Char)
  | c :: rest =>
    match if isTimeMark c then time? rest else none with
    | some (time, rest) => do
      let (offset, rest) ← offset? rest
      some ('T' :: (time ++ offset), rest)
    | none => some ([], c :: rest)
  | [] => some ([], [])

def momentText? (cs : List Char) : Option (List Char × List Char) :=
  match date? cs with
  | some (date, rest) => (timeOfDay? rest).map fun r => (date ++ r.1, r.2)
  | none => time? cs

/-- The only key of the object that a date or time becomes in a document. -/
def momentKey : String := "$__toml_private_datetime"

def moment? (cs : List Char) : Option (Json × List Char) :=
  (momentText? cs).map fun r => (.obj [(momentKey, .str (String.ofList r.1))], r.2)

/-- Further digits, each of them with or without an underscore in front. -/
def moreDigits? (isDigit : Char → Bool) : Reader (List Char)
  | '_' :: c :: rest =>
    if isDigit c then (moreDigits? isDigit rest).map fun r => (c :: r.1, r.2) else none
  | ['_'] => none
  | c :: rest =>
    if isDigit c then (moreDigits? isDigit rest).map fun r => (c :: r.1, r.2)
    else some ([], c :: rest)
  | [] => some ([], [])

def digits? (isDigit : Char → Bool) : Reader (List Char)
  | c :: rest =>
    if isDigit c then (moreDigits? isDigit rest).map fun r => (c :: r.1, r.2) else none
  | [] => none

def whole? : Reader (List Char)
  | '0' :: rest => some (['0'], rest)
  | cs => digits? Char.isDigit cs

def isHexDigit (c : Char) : Bool :=
  (Json.hexValue? c).isSome

def isOctalDigit (c : Char) : Bool :=
  '0' ≤ c && c ≤ '7'

def isBinaryDigit (c : Char) : Bool :=
  c == '0' || c == '1'

def valueIn (base : Nat) (digits : List Char) : Nat :=
  digits.foldl (fun n c => base * n + (Json.hexValue? c).getD 0) 0

/-- An integer without a sign in a base that is a power of two. -/
def based? (base : Nat) (isDigit : Char → Bool) (cs : List Char) : Option (Number × List Char) := do
  let (digits, rest) ← digits? isDigit cs
  let n := valueIn base digits
  if n ≤ Text.maxInt64 then some (.int n, rest) else none

def integer? (negative : Bool) (digits : List Char) : Option Number :=
  let n := Text.natFrom 0 digits
  if negative then (if n ≤ Text.maxInt64 + 1 then some (.int (-(n : Int))) else none)
  else (if n ≤ Text.maxInt64 then some (.int n) else none)

def fraction? : Reader (List Char)
  | '.' :: rest => digits? Char.isDigit rest
  | cs => some ([], cs)

def exponent? (cs : List Char) : Option (Int × List Char) := do
  let (negative, rest) := Numeral.splitSign cs
  let (digits, rest) ← digits? Char.isDigit rest
  let n : Int := Text.natFrom 0 digits
  some (if negative then -n else n, rest)

def scale? : Reader Int
  | 'e' :: rest => exponent? rest
  | 'E' :: rest => exponent? rest
  | cs => some (0, cs)

def float? (negative : Bool) (n : Numeral) : Option Number :=
  let x := n.decimal.nearest
  if negative then some (.float (-x))
  else if x.isInf then none
  else some (.float x)

def unsigned? (negative : Bool) : Reader Number
  | 'i' :: 'n' :: 'f' :: rest =>
    some (.float (if negative then -Decimal.infinity else Decimal.infinity), rest)
  | 'n' :: 'a' :: 'n' :: rest => some (.float Decimal.notANumber, rest)
  | cs => do
    let (whole, behindWhole) ← whole? cs
    let (fraction, behindFraction) ← fraction? behindWhole
    let (exponent, rest) ← scale? behindFraction
    let n ← if behindWhole.length = rest.length then integer? negative whole
      else float? negative ⟨whole, fraction, exponent⟩
    some (n, rest)

def number? : Reader Number
  | '0' :: 'x' :: rest => based? 16 isHexDigit rest
  | '0' :: 'o' :: rest => based? 8 isOctalDigit rest
  | '0' :: 'b' :: rest => based? 2 isBinaryDigit rest
  | '-' :: rest => unsigned? true rest
  | '+' :: rest => unsigned? false rest
  | cs => unsigned? false cs

end EntityStore.Toml
