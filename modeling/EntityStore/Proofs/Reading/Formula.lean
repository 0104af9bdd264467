import EntityStore.Predicate
import EntityStore.Proofs.Reading.Written

/-!
Conditions as an engine reads them. Placeholders give way to the values bound for them; parentheses
group, AND binds closer than OR, and what they join are comparisons of a column, or of the column
of a row of localized values, with another one, with a value or with NULL. A formula has a truth
value of three under every choice of truth values for its comparisons, one for each occurrence.
-/
namespace EntityStore

/-- Truth values. A comparison with a missing value is neither true nor false. -/
inductive Truth where
  | no
  | unknown
  | yes
deriving DecidableEq, Repr

namespace Truth

def and : Truth → Truth → Truth
  | no, _ => no
  | _, no => no
  | yes, yes => yes
  | _, _ => unknown

def or : Truth → Truth → Truth
  | yes, _ => yes
  | _, yes => yes
  | no, no => no
  | _, _ => unknown

end Truth

namespace Connector

def apply : Connector → Truth → Truth → Truth
  | and => Truth.and
  | or => Truth.or

def neutral : Connector → Truth
  | and => .yes
  | or => .no

@[simp] theorem apply_neutral (c : Connector) (t : Truth) : c.apply t c.neutral = t := by
  cases c <;> cases t <;> rfl

end Connector

structure Leaf where
  left : Expression
  operator : Comparison
  right : Operand

inductive Formula where
  | leaf (l : Leaf)
  | join (c : Connector) (left right : Formula)

namespace Formula

def leaves : Formula → List Leaf
  | leaf l => [l]
  | join _ left right => left.leaves ++ right.leaves

/-- The truth value where `v` gives those of the comparisons, the first of them at `n`. -/
def value (v : Nat → Truth) (n : Nat) : Formula → Truth
  | leaf _ => v n
  | join c left right => c.apply (left.value v n) (right.value v (n + left.leaves.length))

end Formula

namespace Reading

/-- The number of the value that a placeholder stands for. A question mark stands for the next. -/
def placeholderNumber (next : Nat) : Lexeme → Nat
  | .word s => Nat.ofDigitChars 10 ((s.toList.drop 1).takeWhile Char.isDigit) 0
  | _ => next

def valueItem (offset : Nat) (ps : List Parameter) (number : Nat) (l : Lexeme) : Item :=
  match if offset < number then ps[number - offset - 1]? else none with
  | some p => .value p
  | none => .lexeme l

def fill (d : Dialect) (offset : Nat) (ps : List Parameter) (used : Nat) :
    List Lexeme → List Item
  | [] => []
  | l :: rest =>
    if isPlaceholder d l then
      valueItem offset ps (placeholderNumber (offset + used + 1) l) l ::
        fill d offset ps (used + 1) rest
    else .lexeme l :: fill d offset ps used rest

def expect (l : Lexeme) : List Item → Option (List Item)
  | .lexeme other :: rest => if other = l then some rest else none
  | _ => none

def readName : List Item → Option (String × List Item)
  | .lexeme (.name s) :: rest => some (s, rest)
  | _ => none

def readColumn (items : List Item) : Option ((String × String) × List Item) := do
  let (source, rest) ← readName items
  let rest ← expect (.sign '.') rest
  let (column, rest) ← readName rest
  some ((source, column), rest)

def readLocalized (items : List Item) : Option (Expression × List Item) := do
  let rest ← expect (.sign '(') items
  let rest ← expect (.word "SELECT") rest
  let ((read, name), rest) ← readColumn rest
  let rest ← expect (.word "FROM") rest
  let (table, rest) ← readName rest
  let rest ← expect (.word "AS") rest
  let (declared, rest) ← readName rest
  let rest ← expect (.word "WHERE") rest
  let ((compared, key), rest) ← readColumn rest
  let rest ← expect (.word "=") rest
  let ((source, sourceKey), rest) ← readColumn rest
  let rest ← expect (.sign ')') rest
  if read = declared ∧ compared = declared ∧ declared = Expression.localizedAlias ∧
      sourceKey = key then
    some (.localized table key source name, rest)
  else none

def readExpression (items : List Item) : Option (Expression × List Item) :=
  match items with
  | .lexeme (.name _) :: _ => (readColumn items).map fun c => (.column c.1.1 c.1.2, c.2)
  | _ => readLocalized items

def readOperand (items : List Item) : Option (Operand × List Item) :=
  match items with
  | .value p :: rest => some (.value p, rest)
  | .lexeme (.word _) :: _ => (expect (.word "NULL") items).map fun rest => (.value .null, rest)
  | _ => (readExpression items).map fun e => (.expression e.1, e.2)

def readOperator : List Item → Option (Comparison × List Item)
  | .lexeme (.word s) :: rest =>
    if s = "NOT" then (expect (.word "LIKE") rest).map fun rest => (.notLike, rest)
    else (Comparison.ofSymbol? s).map fun c => (c, rest)
  | _ => none

def readComparison (items : List Item) : Option (Formula × List Item) := do
  let (left, rest) ← readExpression items
  let (operator, rest) ← readOperator rest
  let (right, rest) ← readOperand rest
  some (.leaf ⟨left, operator, right⟩, rest)

def opensGroup : List Item → Bool
  | .lexeme (.sign c) :: .lexeme (.word s) :: _ => c == '(' && s != "SELECT"
  | .lexeme (.sign c) :: _ => c == '('
  | _ => false

mutual

def readPrimary : Nat → List Item → Option (Formula × List Item)
  | 0, _ => none
  | depth + 1, items =>
    if opensGroup items then do
      let (f, rest) ← readDisjunction depth (items.drop 1)
      let rest ← expect (.sign ')') rest
      some (f, rest)
    else readComparison items

def readConjunction : Nat → List Item → Option (Formula × List Item)
  | 0, _ => none
  | depth + 1, items => do
    let (f, rest) ← readPrimary depth items
    match expect (.word "AND") rest with
    | none => some (f, rest)
    | some rest => do
      let (g, rest) ← readConjunction depth rest
      some (.join .and f g, rest)

def readDisjunction : Nat → List Item → Option (Formula × List Item)
  | 0, _ => none
  | depth + 1, items => do
    let (f, rest) ← readConjunction depth items
    match expect (.word "OR") rest with
    | none => some (f, rest)
    | some rest => do
      let (g, rest) ← readDisjunction depth rest
      some (.join .or f g, rest)

end

/-- The condition that the items are, all of them. No nesting is deeper than the items are many. -/
def readItems (items : List Item) : Option Formula :=
  match readDisjunction (4 * items.length + 2) items with
  | some (f, []) => some f
  | _ => none

/-- The condition that a text is, where the values were bound behind `offset` others. -/
def readCondition (d : Dialect) (offset : Nat) (ps : List Parameter) (s : String) :
    Option Formula :=
  readItems (fill d offset ps 0 (lexemes d s))

end Reading

end EntityStore
