import EntityStore.Predicate
import EntityStore.Query

/-!
What a query reads, clause by clause: the projected columns, the joins, the conditions, the order
and the page. Clauses of a joined query follow those of the query it is joined to.
-/
namespace EntityStore

structure EmbeddedRow where
  table : String
  key : String
  pairs : List (String × Expression)
  source : String
  field : String
deriving DecidableEq

namespace EmbeddedRow

def rowAlias : String := "c"

def sql (e : EmbeddedRow) (d : Dialect) : String :=
  "(SELECT " ++ d.jsonObject (e.pairs.map fun p => (p.1, p.2.sql d)) ++ " FROM " ++
    d.quote e.table ++ " AS " ++ d.quote rowAlias ++ " WHERE " ++ d.qualified rowAlias e.key ++
    " = " ++ d.qualified e.source e.field ++ " LIMIT 1) AS " ++ d.quote e.field

end EmbeddedRow

inductive Projected where
  /-- A column under its own name. -/
  | column (source name : String)
  | named (e : Expression) (name : String)
  | embedded (row : EmbeddedRow)
deriving DecidableEq

namespace Projected

def sql (d : Dialect) : Projected → String
  | column source name => d.qualified source name
  | named e name => e.sql d ++ " AS " ++ d.quote name
  | embedded row => row.sql d

def name : Projected → String
  | column _ name => name
  | named _ name => name
  | embedded row => row.field

end Projected

/-- A joined table: its key equals a column of a table before it. -/
structure JoinClause where
  kind : JoinKind
  target : String
  key : String
  source : String
  field : String
deriving DecidableEq

def JoinClause.sql (d : Dialect) (j : JoinClause) : String :=
  j.kind.keyword ++ " JOIN " ++ d.quote j.target ++ " ON (" ++ d.qualified j.source j.field ++
    " = " ++ d.qualified j.target j.key ++ ")"

structure OrderClause where
  expression : Expression
  ascending : Bool
deriving DecidableEq

def OrderClause.sql (d : Dialect) (o : OrderClause) : String :=
  o.expression.sql d ++ (if o.ascending then " ASC" else " DESC")

structure Clauses where
  projection : List Projected := []
  joins : List JoinClause := []
  conditions : List Predicate := []
  order : List OrderClause := []

def Clauses.append (a b : Clauses) : Clauses where
  projection := a.projection ++ b.projection
  joins := a.joins ++ b.joins
  conditions := a.conditions ++ b.conditions
  order := a.order ++ b.order

structure Page where
  offset : Nat
  limit : Nat
deriving DecidableEq, Repr

structure Selection where
  table : String
  clauses : Clauses
  page : Option Page

namespace Selection

def projectionSql (s : Selection) (d : Dialect) : String :=
  Text.join ", " (s.clauses.projection.map (Projected.sql d))

def joinSql (s : Selection) (d : Dialect) : String :=
  Text.join " " (s.clauses.joins.map (JoinClause.sql d))

def conditionSql (s : Selection) (d : Dialect) : Sql :=
  Sql.join " AND " (s.clauses.conditions.map (Predicate.sql d))

def orderSql (s : Selection) (d : Dialect) : String :=
  Text.join ", " (s.clauses.order.map (OrderClause.sql d))

def pageSql (s : Selection) (d : Dialect) : String :=
  match s.page with
  | some p => d.limit p.offset p.limit
  | none => ""

def clause (introduction : String) (body : Sql) : List Sql :=
  if body.isEmpty then [] else [Sql.text introduction ++ body]

def textClause (introduction body : String) : List Sql :=
  if body = "" then [] else [Sql.text (introduction ++ body)]

def filters (s : Selection) (d : Dialect) : List Sql :=
  textClause "" (s.joinSql d) ++ clause "WHERE " (s.conditionSql d)

def selectSql (s : Selection) (d : Dialect) : Sql :=
  Sql.join " " <|
    [Sql.text ("SELECT " ++ s.projectionSql d), Sql.text ("FROM " ++ d.quote s.table)] ++
    s.filters d ++ textClause "ORDER BY " (s.orderSql d) ++ textClause "" (s.pageSql d)

def totalColumn : String := "total"

def countSql (s : Selection) (d : Dialect) : Sql :=
  Sql.join " " <|
    [Sql.text ("SELECT COUNT(*) AS " ++ d.quote totalColumn),
      Sql.text ("FROM " ++ d.quote s.table)] ++
    s.filters d

end Selection

namespace Query

/-- The requested names, or those of all fields where none is requested. -/
def requestedNames (s : Schema) (names : List String) : List String :=
  if names.isEmpty then s.fields.map Field.name else names

def isEmbedded (s : Schema) (name : String) : Bool :=
  match s.field? name with
  | some f => f.isReference
  | none => false

def projected? (s : Schema) (name : String) : Option Projected := do
  let f ← s.field? name
  match ← s.expression? s.name name with
  | .column source name => some (.column source name)
  | e@(.localized ..) => some (.named e f.name)

/-- Each name once, and none of the names left out. -/
def distinctFrom (seen : List String) : List String → List String
  | [] => []
  | n :: rest => if n ∈ seen then distinctFrom seen rest else n :: distinctFrom (n :: seen) rest

/-- The names that are read as fields: each once, and no relation that is read as a row. -/
def fieldNames (s : Schema) (o : ReadOptions) : List String :=
  let embedded := (o.relations.map RelationFetch.name).filter (isEmbedded s)
  distinctFrom embedded (requestedNames s o.fields)

/-- The root row always carries its key, so that related rows can be attached to it. -/
def rootKey (s : Schema) (names : List String) : List Projected :=
  if s.primaryKey ∈ names then [] else [.column s.name s.primaryKey]

def ownProjection (s : Schema) (root : Bool) (o : ReadOptions) : List Projected :=
  let names := fieldNames s o
  (if root then rootKey s names else []) ++ names.filterMap (projected? s)

/-- The row that a relation leads to, unless none of the fields to read is stored. -/
def embeddedRow? (s : Schema) (f : Field) (fetch : RelationFetch) (related : Schema) :
    Option Projected :=
  let names := fetch.fields.getD (related.fields.map Field.name)
  let pairs := names.filterMap fun n =>
    (related.expression? EmbeddedRow.rowAlias n).map fun e => (n, e)
  if pairs.isEmpty then none
  else some (.embedded {
    table := related.name
    key := related.primaryKey
    pairs
    source := s.name
    field := f.name })

def embeddedRows (r : Registry) (s : Schema) : List RelationFetch → Except Failure (List Projected)
  | [] => .ok []
  | fetch :: rest => do
    let some f := s.field? fetch.name
      | .error (.validation (.unknownRelation fetch.name s.name s.name))
    let here ← match f.kind.reference? with
      | none => pure []
      | some relation => do
        let related ← r.require relation.model
        pure (embeddedRow? s f fetch related).toList
    let others ← embeddedRows r s rest
    .ok (here ++ others)

def orderClause? (r : Registry) (model : String) (o : OrderBy) : Option OrderClause :=
  (r.expression? model o.field).map fun expression => { expression, ascending := o.ascending }

def ownClauses (r : Registry) (s : Schema) (root : Bool) (o : ReadOptions)
    (condition : Option Condition) : Except Failure Clauses := do
  let rows ← embeddedRows r s o.relations
  .ok {
    projection := ownProjection s root o ++ rows
    conditions := (condition.bind (Condition.resolve? r s.name)).toList
    order := o.orderBy.filterMap (orderClause? r s.name) }

/-- The clause of a join. Its target is a model, and its field a column of the own table. -/
def joinClause? (r : Registry) (s : Schema) (kind : JoinKind) (field target : String) :
    Option (Schema × JoinClause) := do
  let t ← r.schema? target
  let f ← s.field? field
  if f.hasColumn && !f.isLocalized then
    some (t, { kind, target, key := t.primaryKey, source := s.name, field })
  else none

mutual

def clausesOf (r : Registry) (s : Schema) (root : Bool) : Query → Except Failure Clauses
  | ⟨options, _, condition, joins⟩ => do
    let own ← ownClauses r s root options condition
    let joined ← joinedClauses r s joins
    .ok (own.append joined)

def joinedClauses (r : Registry) (s : Schema) : List (Join Query) → Except Failure Clauses
  | [] => .ok {}
  | j :: rest => do
    let first ← clausesOfJoin r s j
    let others ← joinedClauses r s rest
    .ok (first.append others)

/-- A join that does not fit is left out with all that is joined to it. -/
def clausesOfJoin (r : Registry) (s : Schema) : Join Query → Except Failure Clauses
  | ⟨kind, field, query⟩ =>
    match joinClause? r s kind field query.model with
    | none => .ok {}
    | some (t, clause) => do
      let nested ← clausesOf r t false query
      .ok (Clauses.append { joins := [clause] } nested)

end

def page? (o : ReadOptions) : Option Page :=
  match o.limit with
  | some (n + 1) => some ⟨o.skipped, n + 1⟩
  | _ => none

def selection (r : Registry) (q : Query) : Except Failure Selection := do
  let s ← r.require q.model
  let clauses ← q.clausesOf r s true
  .ok { table := q.model, clauses, page := page? q.options }

end Query

end EntityStore
