import EntityStore.Decimal
import EntityStore.Json.Basic
import EntityStore.Text.Basic

/-!
The text of a value, compact or over several lines. In strings only quotes, backslashes and controls
are escaped.
-/
namespace EntityStore.Json

def hexDigit (n : Nat) : Char :=
  Nat.digitChar n

def numericEscape (n : Nat) : List Char :=
  ['\\', 'u', '0', '0', hexDigit (n / 16), hexDigit (n % 16)]

def escapeChar (c : Char) : List Char :=
  if c = '"' then ['\\', '"']
  else if c = '\\' then ['\\', '\\']
  else if c = '\x08' then ['\\', 'b']
  else if c = '\x0c' then ['\\', 'f']
  else if c = '\n' then ['\\', 'n']
  else if c = '\r' then ['\\', 'r']
  else if c = '\t' then ['\\', 't']
  else if c.toNat < 0x20 then numericEscape c.toNat
  else [c]

def escape (cs : List Char) : List Char :=
  cs.flatMap escapeChar

def stringText (s : String) : String :=
  String.ofList ('"' :: (escape s.toList ++ ['"']))

def numberText : Number → String
  | .int n => toString n
  | .float x => if x.isFinite then Decimal.documentText x else "null"

mutual

def text : Json → String
  | .null => "null"
  | .bool true => "true"
  | .bool false => "false"
  | .num n => numberText n
  | .str s => stringText s
  | .arr items => "[" ++ Text.join "," (itemTexts items) ++ "]"
  | .obj members => "\x7b" ++ Text.join "," (memberTexts members) ++ "\x7d"

def itemTexts : List Json → List String
  | [] => []
  | v :: rest => text v :: itemTexts rest

def memberTexts : List (String × Json) → List String
  | [] => []
  | (k, v) :: rest => (stringText k ++ ":" ++ text v) :: memberTexts rest

end

def block (opening closing margin : String) (texts : List String) : String :=
  if texts.isEmpty then opening ++ closing
  else
    let inner := "\n" ++ margin ++ "  "
    opening ++ inner ++ Text.join ("," ++ inner) texts ++ "\n" ++ margin ++ closing

mutual

def prettyText (margin : String) : Json → String
  | .null => "null"
  | .bool true => "true"
  | .bool false => "false"
  | .num n => numberText n
  | .str s => stringText s
  | .arr items => block "[" "]" margin (prettyItems (margin ++ "  ") items)
  | .obj members => block "\x7b" "\x7d" margin (prettyMembers (margin ++ "  ") members)

def prettyItems (margin : String) : List Json → List String
  | [] => []
  | v :: rest => prettyText margin v :: prettyItems margin rest

def prettyMembers (margin : String) : List (String × Json) → List String
  | [] => []
  | (k, v) :: rest => (stringText k ++ ": " ++ prettyText margin v) :: prettyMembers margin rest

end

end EntityStore.Json
