import EntityStore.Json.Basic
import EntityStore.Toml.Scalar

/-!
TOML documents. A document is a sequence of lines: headers, which say to which table the entries
below them belong, and entries. Reading gives the object of the outermost table.

A table is written once, under its own header or as a value; a header may name tables that only
longer headers have implied so far, and a dotted key may add to tables that only dotted keys have
made. Arrays may go over several lines, tables in braces may not; both may stand inside one another,
at most 79 deep.
-/
namespace EntityStore.Toml

/-- What has made a table: its own header or value, a longer header, or a dotted key. -/
inductive Making where
  | written
  | implied
  | dotted
deriving DecidableEq, Repr

inductive Node where
  | value (v : Json)
  | table (making : Making) (entries : List (String × Node))
  /-- The tables under one repeated header, the last first. -/
  | tables (items : List Node)

abbrev Entries := List (String × Node)

namespace Node

def empty : Node := .table .written []

def put (key : String) (n : Node) : Entries → Entries
  | [] => [(key, n)]
  | (k, m) :: rest => if k = key then (k, n) :: rest else (k, m) :: put key n rest

/--
Changes the table at the end of a path. Tables that are missing on the way are made; a dotted path
does not enter a table that is written, and under a repeated header the last table counts.
-/
def within? (dotted : Bool) (change : Making → Entries → Option Node) :
    List String → Making → Entries → Option Node
  | [], making, entries => change making entries
  | key :: path, making, entries => do
    let child ← match entries.lookup key with
      | none => within? dotted change path (if dotted then .dotted else .implied) []
      | some (.table m es) =>
        if dotted && m == .written then none else within? dotted change path m es
      | some (.tables (.table m es :: earlier)) =>
        (within? dotted change path m es).map fun t => .tables (t :: earlier)
      | some _ => none
    some (.table making (put key child entries))

/-- Adds an entry that is not there yet; at the end of a dotted path the table is a dotted one. -/
def define? (path : List String) (key : String) (v : Json) (making : Making) (entries : Entries) :
    Option Node :=
  within? true
    (fun m es =>
      if (m == .dotted) == path.isEmpty || (es.lookup key).isSome then none
      else some (.table m (put key (.value v) es)))
    path making entries

def openTable? (key : String) (making : Making) (entries : Entries) : Option Node :=
  match entries.lookup key with
  | none => some (.table making (put key empty entries))
  | some (.table .implied es) => some (.table making (put key (.table .written es) entries))
  | some _ => none

def openItem? (key : String) (making : Making) (entries : Entries) : Option Node :=
  match entries.lookup key with
  | none => some (.table making (put key (.tables [empty]) entries))
  | some (.tables items) => some (.table making (put key (.tables (empty :: items)) entries))
  | some _ => none

def inTable? (path : List String) (change : Making → Entries → Option Node) : Node → Option Node
  | .table making entries => within? false change path making entries
  | _ => none

mutual

def toJson : Node → Json
  | .value v => v
  | .table _ entries => .obj (entriesJson entries)
  | .tables items => .arr (itemsJson items).reverse

def itemsJson : List Node → List Json
  | [] => []
  | n :: rest => toJson n :: itemsJson rest

def entriesJson : List (String × Node) → List (String × Json)
  | [] => []
  | (key, n) :: rest => (key, toJson n) :: entriesJson rest

end

end Node

def isBare (c : Char) : Bool :=
  c.isAlphanum || c == '-' || c == '_'

def name? : Reader String
  | '"' :: rest => (basic? rest).map fun r => (String.ofList r.1, r.2)
  | '\x27' :: rest => (literal? rest).map fun r => (String.ofList r.1, r.2)
  | cs =>
    match cs.takeWhile isBare with
    | [] => none
    | name => some (String.ofList name, cs.dropWhile isBare)

/-- A path of at least one and at most so many names, with blanks around each. -/
def pathWithin? : Nat → Reader (List String)
  | 0, _ => none
  | names + 1, cs => do
    let (name, rest) ← name? (skipBlanks cs)
    match skipBlanks rest with
    | '.' :: rest => do
      let (path, rest) ← pathWithin? names rest
      some (name :: path, rest)
    | rest => some ([name], rest)

def maxDepth : Nat := 79

def key? (cs : List Char) : Option ((List String × String) × List Char) := do
  let (path, rest) ← pathWithin? maxDepth cs
  some ((path.dropLast, ← path.getLast?), rest)

/-- The items of an array up to its closing bracket. A comma may follow the last one. -/
def itemsWithin? (value? : Reader Json) : Nat → Reader (List Json)
  | 0, _ => none
  | fuel + 1, cs => do
    match ← skipSpace? false cs with
    | ']' :: rest => some ([], rest)
    | cs =>
      let (v, rest) ← value? cs
      match ← skipSpace? false rest with
      | ',' :: rest => (itemsWithin? value? fuel rest).map fun r => (v :: r.1, r.2)
      | ']' :: rest => some ([v], rest)
      | _ => none

structure Entry where
  path : List String
  key : String
  value : Json

def pair? (value? : Reader Json) (cs : List Char) : Option (Entry × List Char) := do
  match ← key? cs with
  | ((path, key), '=' :: rest) =>
    let (value, rest) ← value? (skipBlanks rest)
    some ({ path, key, value }, rest)
  | _ => none

def entriesWithin? (value? : Reader Json) : Nat → Reader (List Entry)
  | 0, _ => none
  | fuel + 1, cs => do
    let (e, rest) ← pair? value? cs
    match skipBlanks rest with
    | ',' :: rest => (entriesWithin? value? fuel rest).map fun r => (e :: r.1, r.2)
    | '\x7d' :: rest => some ([e], rest)
    | _ => none

def defineAll? : Node → List Entry → Option Node
  | n, [] => some n
  | n, e :: rest => do defineAll? (← n.inTable? [] (Node.define? e.path e.key e.value)) rest

def braces? (value? : Reader Json) (cs : List Char) : Option (Json × List Char) :=
  match skipBlanks cs with
  | '\x7d' :: rest => some (.obj [], rest)
  | cs => do
    let (entries, rest) ← entriesWithin? value? cs.length cs
    some ((← defineAll? .empty entries).toJson, rest)

def scalar? : Reader Json
  | 't' :: 'r' :: 'u' :: 'e' :: rest => some (.bool true, rest)
  | 'f' :: 'a' :: 'l' :: 's' :: 'e' :: rest => some (.bool false, rest)
  | '"' :: rest => (string? ('"' :: rest)).map fun r => (.str r.1, r.2)
  | '\x27' :: rest => (string? ('\x27' :: rest)).map fun r => (.str r.1, r.2)
  | cs =>
    match moment? cs with
    | some r => some r
    | none => (number? cs).map fun r => (.num r.1, r.2)

def valueWithin? : Nat → Reader Json
  | 0, cs => scalar? cs
  | depth + 1, cs =>
    match cs with
    | '[' :: rest =>
      (itemsWithin? (valueWithin? depth) (rest.length + 1) rest).map fun r => (.arr r.1, r.2)
    | '\x7b' :: rest => braces? (valueWithin? depth) rest
    | cs => scalar? cs

def value? : Reader Json :=
  valueWithin? maxDepth

inductive Line where
  | header (path : List String) (key : String)
  | itemHeader (path : List String) (key : String)
  | entry (e : Entry)

def line? : Reader Line
  | '[' :: '[' :: rest => do
    match ← key? rest with
    | ((path, key), ']' :: ']' :: rest) => some (.itemHeader path key, rest)
    | _ => none
  | '[' :: rest => do
    match ← key? rest with
    | ((path, key), ']' :: rest) => some (.header path key, rest)
    | _ => none
  | cs => (pair? value? cs).map fun r => (.entry r.1, r.2)

def linesOf? : Nat → List Char → Option (List Line)
  | 0, _ => none
  | fuel + 1, cs =>
    match skipLines cs with
    | [] => some []
    | '#' :: rest => do linesOf? fuel (← endLine? ('#' :: rest))
    | cs => do
      let (l, rest) ← line? cs
      let ls ← linesOf? fuel (← endLine? rest)
      some (l :: ls)

structure Layers where
  root : Node := .empty
  current : List String := []

namespace Layers

def add? (l : Layers) : Line → Option Layers
  | .header path key => do
    some ⟨← l.root.inTable? path (Node.openTable? key), path ++ [key]⟩
  | .itemHeader path key => do
    some ⟨← l.root.inTable? path (Node.openItem? key), path ++ [key]⟩
  | .entry e => do
    some ⟨← l.root.inTable? l.current (Node.define? e.path e.key e.value), l.current⟩

def addAll? : Layers → List Line → Option Layers
  | l, [] => some l
  | l, line :: rest => do addAll? (← l.add? line) rest

end Layers

/-- A mark of byte order may come first. -/
def skipMark : List Char → List Char
  | '\ufeff' :: rest => rest
  | cs => cs

def parse? (s : String) : Option Json := do
  let cs := skipMark s.toList
  let lines ← linesOf? (cs.length + 1) cs
  let layers ← Layers.addAll? {} lines
  some layers.root.toJson

end EntityStore.Toml
