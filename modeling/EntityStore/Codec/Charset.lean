import EntityStore.Dialect
import EntityStore.Failure
import EntityStore.Json.Shape

/-!
The character set and collation of a database, and their document, which is read from either
format. They are names and stand bare in the statement that sets them, so nothing but a name passes.
-/
namespace EntityStore

structure CharsetSettings where
  /-- The database whose defaults are set. -/
  database : Option String := none
  charset : String := "utf8mb4"
  collation : String := "utf8mb4_unicode_ci"
deriving DecidableEq, Repr

namespace CharsetSettings

def isName (s : String) : Bool :=
  !s.isEmpty && s.toList.all fun c => c.isAlphanum || c == '_'

def checkName (s : String) : Except Failure Unit :=
  if isName s then .ok () else .error (.validation (.charset s))

def alterSql? (o : CharsetSettings) (d : Dialect) : Except Failure (Option String) :=
  match d, o.database with
  | .mysql, some database => do
    checkName o.charset
    checkName o.collation
    .ok (some ("ALTER DATABASE " ++ d.quote database ++ " CHARACTER SET " ++ o.charset ++
      " COLLATE " ++ o.collation))
  | _, _ => .ok none

def toJson (o : CharsetSettings) : Json :=
  .obj [
    ("charset", .str o.charset),
    ("collation", .str o.collation),
    ("database", Json.ofOption .str o.database)]

def ofDocument? (format : Format) (v : Json) : Option CharsetSettings := do
  let r ← v.fields? format ["database", "charset", "collation"]
  let standard : CharsetSettings := {}
  some {
    database := ← r.optional? ["database"] Json.string?
    charset := ← r.defaulted? ["charset"] standard.charset Json.string?
    collation := ← r.defaulted? ["collation"] standard.collation Json.string? }

def ofJson? : Json → Option CharsetSettings :=
  ofDocument? .json

end CharsetSettings

end EntityStore
