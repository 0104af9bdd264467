import EntityStore.Text.Basic
import EntityStore.Text.LetterCase
import EntityStore.Text.Quoted

/-!
The SQL dialects and where they differ: quotation marks, paging, JSON objects built by the engine,
and how an INSERT without columns and one that returns its key are written.
-/
namespace EntityStore

inductive Dialect where
  | mysql
  | postgres
  | sqlite
deriving DecidableEq, Repr

namespace Dialect

def name : Dialect → String
  | mysql => "mysql"
  | postgres => "postgres"
  | sqlite => "sqlite"

def ofName? : String → Option Dialect
  | "mysql" => some mysql
  | "postgres" => some postgres
  | "sqlite" => some sqlite
  | _ => none

/-- The dialect of a name or of a usual other name, in any case of ASCII letters. -/
def ofAlias? (s : String) : Option Dialect :=
  match Text.lowerAscii s with
  | "mysql" | "mariadb" => some mysql
  | "postgres" | "postgresql" | "pg" => some postgres
  | "sqlite" => some sqlite
  | _ => none

def unknownMessage (s : String) : String :=
  "unknown dialect: " ++ Text.lowerAscii s

def mark : Dialect → Char
  | mysql => '\x60'
  | postgres | sqlite => '"'

def quote (d : Dialect) (identifier : String) : String :=
  Text.enclose d.mark identifier

def qualified (d : Dialect) (source column : String) : String :=
  d.quote source ++ "." ++ d.quote column

def literal (s : String) : String :=
  Text.enclose '\x27' s

def limit (offset limit : Nat) : Dialect → String
  | mysql | sqlite => "LIMIT " ++ toString offset ++ ", " ++ toString limit
  | postgres => "LIMIT " ++ toString limit ++ " OFFSET " ++ toString offset

def textType : Dialect → String
  | mysql => "CHAR"
  | postgres | sqlite => "TEXT"

def jsonPair (d : Dialect) (pair : String × String) : String :=
  literal pair.1 ++ ", CAST(" ++ pair.2 ++ " AS " ++ d.textType ++ ")"

/-- The text of a JSON object of keys and expressions, each value as text and NULL as null. -/
def jsonObject (pairs : List (String × String)) (d : Dialect) : String :=
  let arguments := Text.join ", " (pairs.map d.jsonPair)
  match d with
  | mysql => "JSON_OBJECT(" ++ arguments ++ ")"
  | postgres => "CAST(json_build_object(" ++ arguments ++ ") AS TEXT)"
  | sqlite => "json_object(" ++ arguments ++ ")"

def returning? (column : String) : Dialect → Option String
  | mysql => none
  | d@postgres | d@sqlite => some ("RETURNING " ++ d.quote column)

def insertDefaults (table : String) : Dialect → String
  | d@mysql => "INSERT INTO " ++ d.quote table ++ " () VALUES ()"
  | d@postgres | d@sqlite => "INSERT INTO " ++ d.quote table ++ " DEFAULT VALUES"

def tableOptions : Dialect → String
  | mysql => " ENGINE=InnoDB"
  | postgres | sqlite => ""

end Dialect

end EntityStore
