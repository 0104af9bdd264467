import EntityStore.Json.Parser
import EntityStore.Json.Shape
import EntityStore.Query

/-!
Conditions and queries as documents and as texts. A node of a condition is read as a comparison if
it fits one, and else as a connector. A query writes all its members, and every one of them may be
absent when it is read. In a text, members that a query does not have are passed over, and so are
those of its joins and of the fields that it is ordered by; conditions and relations are read as a
whole.
-/
namespace EntityStore

namespace Condition

def modelMember : Option String → Record
  | some m => [("model", .str m)]
  | none => []

mutual

def toJson : Condition → Json
  | .compare field operator value isField model =>
    .obj <| [("field", .str field)] ++ (if isField then [("isField", .bool true)] else []) ++
      modelMember model ++ [("op", .str operator.symbol), ("value", value)]
  | .connect operator children model =>
    .obj <| [("children", .arr (toJsons children))] ++ modelMember model ++
      [("op", .str operator.symbol)]

def toJsons : List Condition → List Json
  | [] => []
  | c :: rest => toJson c :: toJsons rest

end

def comparisonOf? (r : Record) : Option Condition := do
  some <| .compare
    (← r.required? ["field"] Json.string?)
    (← r.required? ["op"] (Json.named? .json Comparison.ofSymbol?))
    (← r.required? ["value"] fun v => some v.canonical)
    (← r.defaulted? ["isField"] false Json.boolean?)
    (← r.optional? ["model"] Json.string?)

def childrenOf? (read : List (String × Option (List Condition))) : Option (List Condition) :=
  match read.filter fun m => m.1 == "children" with
  | [m] => m.2
  | _ => none

def connectorOf? (r : Record) (read : List (String × Option (List Condition))) :
    Option Condition := do
  some <| .connect
    (← r.required? ["op"] (Json.named? .json Connector.ofSymbol?))
    (← childrenOf? read)
    (← r.optional? ["model"] Json.string?)

mutual

def ofJson? : Json → Option Condition
  | .obj members => (comparisonOf? members).or (connectorOf? members (readMembers members))
  | _ => none

def ofItems? : List Json → Option (List Condition)
  | [] => some []
  | v :: rest => do
    let c ← ofJson? v
    let cs ← ofItems? rest
    some (c :: cs)

def readMembers : List (String × Json) → List (String × Option (List Condition))
  | [] => []
  | (k, .arr items) :: rest => (k, ofItems? items) :: readMembers rest
  | (k, _) :: rest => (k, none) :: readMembers rest

end

end Condition

namespace RelationFetch

def toJson (f : RelationFetch) : Json :=
  match f.fields with
  | none => .str f.name
  | some names => .obj [("fields", .arr (names.map Json.str)), ("name", .str f.name)]

def ofRecord? (r : Record) : Option RelationFetch := do
  some {
    name := ← r.required? ["name"] Json.string?
    fields := some (← r.required? ["fields"] (Json.array? Json.string?)) }

def ofJson? : Json → Option RelationFetch
  | .str s => some { name := s }
  | .obj members => ofRecord? members
  | _ => none

end RelationFetch

namespace JoinKind

def ofJson? (v : Json) : Option JoinKind :=
  v.string?.map ofName

end JoinKind

namespace OrderBy

def toJson (o : OrderBy) : Json :=
  .obj [("ascending", .bool o.ascending), ("field", .str o.field)]

/-- The members, in the order in which an array may list them. -/
def memberNames : List String :=
  ["field", "ascending"]

def ofJson? (v : Json) : Option OrderBy := do
  let r ← v.fields? .json memberNames
  some {
    field := ← r.required? ["field"] Json.string?
    ascending := ← r.defaulted? ["ascending"] true Json.boolean? }

end OrderBy

namespace ReadOptions

def ofRecord? (r : Record) : Option ReadOptions := do
  some {
    fields := ← r.defaulted? ["fields"] [] (Json.array? Json.string?)
    relations := ← r.defaulted? ["relations"] [] (Json.array? RelationFetch.ofJson?)
    orderBy := ← r.defaulted? ["orderBy", "order_by"] [] (Json.array? OrderBy.ofJson?)
    limit := ← r.optional? ["limit"] Json.uint64?
    offset := ← r.optional? ["offset"] Json.uint64?
    page := ← r.optional? ["page"] Json.uint64? }

end ReadOptions

namespace Query

mutual

def toJson : Query → Json
  | ⟨options, model, condition, joins⟩ =>
    .obj [
      ("condition", Json.ofOption Condition.toJson condition),
      ("fields", .arr (options.fields.map Json.str)),
      ("joins", .arr (joinsToJson joins)),
      ("limit", Json.ofOption Json.ofNat options.limit),
      ("model", .str model),
      ("offset", Json.ofOption Json.ofNat options.offset),
      ("orderBy", .arr (options.orderBy.map OrderBy.toJson)),
      ("page", Json.ofOption Json.ofNat options.page),
      ("relations", .arr (options.relations.map RelationFetch.toJson))]

def joinsToJson : List (Join Query) → List Json
  | [] => []
  | j :: rest => joinToJson j :: joinsToJson rest

def joinToJson : Join Query → Json
  | ⟨kind, field, query⟩ =>
    .obj [("field", .str field), ("kind", .str kind.name), ("query", toJson query)]

end

def memberNames : List String :=
  ["model", "fields", "condition", "relations", "joins", "orderBy", "limit", "offset", "page"]

def joinMemberNames : List String :=
  ["kind", "field", "query"]

def readUnder? {α : Type} (key : String) (read : List (String × Option α)) : Option (Option α) :=
  match read.filter fun m => m.1 == key with
  | [] => some none
  | [(_, some x)] => some (some x)
  | _ => none

def ofMembers? (r : Record) (read : List (String × Option (List (Join Query)))) :
    Option Query := do
  some {
    options := ← ReadOptions.ofRecord? r
    model := ← r.defaulted? ["model"] "" Json.string?
    condition := ← r.optional? ["condition"] Condition.ofJson?
    joins := (← readUnder? "joins" read).getD [] }

def joinOfMembers? (r : Record) (read : List (String × Option Query)) : Option (Join Query) := do
  some {
    kind := ← r.defaulted? ["kind"] .left JoinKind.ofJson?
    field := ← r.required? ["field"] Json.string?
    query := ← ← readUnder? "query" read }

mutual

def ofJson? : Json → Option Query
  | .obj members => ofMembers? members (readJoins members)
  | .arr items => do
    ofMembers? (← (Json.arr items).fields? .json memberNames)
      (memberNames.zip (readJoinItems items))
  | _ => none

def joins? : Json → Option (List (Join Query))
  | .arr items => joinItems? items
  | _ => none

def joinItems? : List Json → Option (List (Join Query))
  | [] => some []
  | v :: rest => do
    let j ← join? v
    let js ← joinItems? rest
    some (j :: js)

def join? : Json → Option (Join Query)
  | .obj members => joinOfMembers? members (readQueries members)
  | .arr items => do
    joinOfMembers? (← (Json.arr items).fields? .json joinMemberNames)
      (joinMemberNames.zip (readQueryItems items))
  | _ => none

def readJoins : List (String × Json) → List (String × Option (List (Join Query)))
  | [] => []
  | (k, v) :: rest => (k, joins? v) :: readJoins rest

def readJoinItems : List Json → List (Option (List (Join Query)))
  | [] => []
  | v :: rest => joins? v :: readJoinItems rest

def readQueries : List (String × Json) → List (String × Option Query)
  | [] => []
  | (k, v) :: rest => (k, ofJson? v) :: readQueries rest

def readQueryItems : List Json → List (Option Query)
  | [] => []
  | v :: rest => ofJson? v :: readQueryItems rest

end

inductive Part where
  | query
  | joins
  | join
  | orders
  | order
  | whole
deriving DecidableEq, Repr

namespace Part

def memberNames : Part → List String
  | query => Query.memberNames
  | join => joinMemberNames
  | order => OrderBy.memberNames
  | _ => []

def member? : Part → String → Option Part
  | query, "joins" => some joins
  | query, "orderBy" => some orders
  | query, "order_by" => some orders
  | join, "query" => some query
  | whole, _ => some whole
  | p, key => if p.memberNames.contains key then some whole else none

def item? : Part → Nat → Option Part
  | joins, _ => some join
  | orders, _ => some order
  | whole, _ => some whole
  | p, index => p.memberNames[index]?.bind p.member?

end Part

def outline : Json.Outline Part :=
  ⟨.query, Part.member?, Part.item?⟩

def parse? (text : String) : Option Query := do
  ofJson? (← Json.parseWanted? outline.wants text)

end Query

end EntityStore
