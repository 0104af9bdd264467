import EntityStore.Json.Basic
import EntityStore.Text.Basic
import EntityStore.Text.LetterCase

/-!
What to read: fields of a model, related rows, joined queries, a condition, an order and a page.
Conditions are comparisons of fields, joined by AND and OR; a node may name the model on whose
fields it and everything below it speaks.
-/
namespace EntityStore

inductive Comparison where
  | equal
  | notEqual
  | greater
  | greaterOrEqual
  | less
  | lessOrEqual
  | like
  | notLike
deriving DecidableEq, Repr

namespace Comparison

def symbol : Comparison → String
  | equal => "="
  | notEqual => "<>"
  | greater => ">"
  | greaterOrEqual => ">="
  | less => "<"
  | lessOrEqual => "<="
  | like => "LIKE"
  | notLike => "NOT LIKE"

def ofSymbol? : String → Option Comparison
  | "=" => some equal
  | "<>" => some notEqual
  | ">" => some greater
  | ">=" => some greaterOrEqual
  | "<" => some less
  | "<=" => some lessOrEqual
  | "LIKE" => some like
  | "NOT LIKE" => some notLike
  | _ => none

end Comparison

inductive Connector where
  | and
  | or
deriving DecidableEq, Repr

namespace Connector

def symbol : Connector → String
  | and => "AND"
  | or => "OR"

def ofSymbol? : String → Option Connector
  | "AND" => some and
  | "OR" => some or
  | _ => none

end Connector

inductive Condition where
  /-- A field against a value, or against the field that the value names. -/
  | compare (field : String) (operator : Comparison) (value : Json) (isField : Bool)
      (model : Option String)
  | connect (operator : Connector) (children : List Condition) (model : Option String)

namespace Condition

def model? : Condition → Option String
  | compare _ _ _ _ model => model
  | connect _ _ model => model

def comparison (field : String) (operator : Comparison) (value : Json) : Condition :=
  .compare field operator value false none

def equals (field : String) (value : Json) : Condition :=
  comparison field .equal value

def fields (field : String) (operator : Comparison) (other : String) : Condition :=
  .compare field operator (.str other) true none

def all (children : List Condition) : Condition :=
  .connect .and children none

def any (children : List Condition) : Condition :=
  .connect .or children none

def onModel (source : String) : Condition → Condition
  | compare field operator value isField _ => .compare field operator value isField (some source)
  | connect operator children _ => .connect operator children (some source)

def ofRecord? : Record → Option Condition
  | [] => none
  | r => some (all (r.map fun m => equals m.1 m.2))

end Condition

structure RelationFetch where
  name : String
  fields : Option (List String) := none
deriving DecidableEq, Repr

inductive JoinKind where
  | inner
  | left
  | right
  | full
deriving DecidableEq, Repr

namespace JoinKind

/-- The kind of this name in any case of ASCII letters; any other name is a left join. -/
def ofName (s : String) : JoinKind :=
  match Text.lowerAscii s with
  | "inner" => inner
  | "right" => right
  | "full" | "full outer" => full
  | _ => left

def name : JoinKind → String
  | inner => "inner"
  | left => "left"
  | right => "right"
  | full => "full"

def keyword : JoinKind → String
  | inner => "INNER"
  | left => "LEFT"
  | right => "RIGHT"
  | full => "FULL OUTER"

end JoinKind

structure OrderBy where
  field : String
  ascending : Bool := true
deriving DecidableEq, Repr

/-- A query on the model to which a field of the enclosing query's model points. -/
structure Join (α : Type) where
  kind : JoinKind
  field : String
  query : α

structure ReadOptions where
  /-- No fields stand for all. -/
  fields : List String := []
  relations : List RelationFetch := []
  orderBy : List OrderBy := []
  limit : Option Nat := none
  offset : Option Nat := none
  /-- Counted from one, and used where no offset is given. -/
  page : Option Nat := none
deriving DecidableEq, Repr

structure Query where
  options : ReadOptions := {}
  model : String := ""
  condition : Option Condition := none
  joins : List (Join Query) := []

/-- The rows to skip. Those before a page are at most `2^63 - 1`. -/
def ReadOptions.skipped (o : ReadOptions) : Nat :=
  match o.offset, o.page with
  | some (n + 1), _ => n + 1
  | _, some (p + 1) => min (p * o.limit.getD 0) Text.maxInt64
  | _, _ => 0

namespace Query

def ofModel (model : String) : Query :=
  { model }

def select (q : Query) (fields : List String) : Query :=
  { q with options := { q.options with fields } }

def filter (q : Query) (condition : Condition) : Query :=
  { q with condition := some condition }

def fetch (q : Query) (relation : RelationFetch) : Query :=
  { q with options := { q.options with relations := q.options.relations ++ [relation] } }

def join (q : Query) (kind : JoinKind) (field : String) (query : Query) : Query :=
  { q with joins := q.joins ++ [{ kind, field, query }] }

def orderBy (q : Query) (field : String) (ascending : Bool) : Query :=
  { q with options := { q.options with orderBy := q.options.orderBy ++ [{ field, ascending }] } }

def limit (q : Query) (n : Nat) : Query :=
  { q with options := { q.options with limit := some n } }

def offset (q : Query) (n : Nat) : Query :=
  { q with options := { q.options with offset := some n } }

def page (q : Query) (n : Nat) : Query :=
  { q with options := { q.options with page := some n } }

end Query

end EntityStore
