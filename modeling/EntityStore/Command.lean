import EntityStore.Selection
import EntityStore.Table

/-!
The statements that a store sends to its server. A command says what is read or written, and
`Command.sql` writes it in a dialect.
-/
namespace EntityStore

/-- Which rows of a table are meant: those where every one of these holds. -/
inductive RowMatch where
  | equals (column : String) (p : Parameter)
  | among (column : String) (ps : List Parameter)

inductive Assigned where
  | value (p : Parameter)
  /-- The old value and this one added. -/
  | increased (p : Parameter)
  | zero

structure Assignment where
  column : String
  assigned : Assigned

/-- The rows that a many-to-many relation links to some owners. -/
structure LinkSelection where
  join : JoinTable
  related : String
  relatedKey : String
  columns : List (Expression × String)
  owners : List Parameter

inductive Command where
  | drop (table : String)
  | create (table : Table)
  /-- A statement in the words of the server. -/
  | raw (statement : Statement)
  | select (s : Selection)
  | count (s : Selection)
  | lookup (columns : List String) (table : String) (rows : List RowMatch)
  | elements (table : String) (owners : List Parameter)
  | links (s : LinkSelection)
  | insertDefaults (table returning : String)
  | insert (table : String) (columns : List String) (rows : List (List Parameter))
      (returning : Option String)
  | update (table : String) (assignments : List Assignment) (rows : List RowMatch)
  | delete (table : String) (rows : List RowMatch)

namespace RowMatch

def sql (d : Dialect) : RowMatch → Sql
  | equals column p => Sql.text (d.quote column ++ " = ") ++ Sql.value p
  | among column ps =>
    Sql.text (d.quote column ++ " IN (") ++ Sql.join ", " (ps.map Sql.value) ++ Sql.text ")"

def allSql (d : Dialect) (rows : List RowMatch) : Sql :=
  Sql.join " AND " (rows.map (sql d))

end RowMatch

namespace Assignment

def sql (d : Dialect) (a : Assignment) : Sql :=
  Sql.text (d.quote a.column ++ " = ") ++
    match a.assigned with
    | .value p => Sql.value p
    | .increased p => Sql.text (d.quote a.column ++ " + ") ++ Sql.value p
    | .zero => Sql.text "0"

end Assignment

namespace LinkSelection

def linkAlias : String := "r"

def relatedAlias : String := "m"

def ownerName : String := "__owner"

def relatedName : String := "__related"

def columnSql (d : Dialect) (text name : String) : String :=
  text ++ " AS " ++ d.quote name

def columnsSql (s : LinkSelection) (d : Dialect) : String :=
  Text.join ", " <|
    s.columns.map (fun c => columnSql d (c.1.sql d) c.2) ++
    [columnSql d (d.qualified linkAlias s.join.owner) ownerName,
      columnSql d (d.qualified linkAlias s.join.related) relatedName]

def sql (s : LinkSelection) (d : Dialect) : Sql :=
  Sql.text ("SELECT " ++ s.columnsSql d ++ " FROM " ++ d.quote s.join.name ++ " AS " ++
    d.quote linkAlias ++ " LEFT JOIN " ++ d.quote s.related ++ " AS " ++ d.quote relatedAlias ++
    " ON (" ++ d.qualified relatedAlias s.relatedKey ++ " = " ++
    d.qualified linkAlias s.join.related ++ ") WHERE " ++ d.qualified linkAlias s.join.owner ++
    " IN (") ++
  Sql.join ", " (s.owners.map Sql.value) ++
  Sql.text (") ORDER BY " ++ d.qualified linkAlias "id")

end LinkSelection

namespace Command

def quotedNames (d : Dialect) (names : List String) : String :=
  Text.join ", " (names.map d.quote)

def returningSql (d : Dialect) (returning : Option String) : String :=
  match returning.bind fun column => d.returning? column with
  | some clause => " " ++ clause
  | none => ""

def tupleSql (row : List Parameter) : Sql :=
  Sql.text "(" ++ Sql.join ", " (row.map Sql.value) ++ Sql.text ")"

def elementsSql (table : String) (owners : List Parameter) (d : Dialect) : Sql :=
  Sql.text ("SELECT " ++ quotedNames d [Schema.listOwner, Schema.listValue] ++ " FROM " ++
    d.quote table ++ " WHERE " ++ d.quote Schema.listOwner ++ " IN (") ++
  Sql.join ", " (owners.map Sql.value) ++
  Sql.text (") ORDER BY " ++ d.quote "id")

def sql (d : Dialect) : Command → Sql
  | drop table => Sql.text (Table.dropSql table d)
  | create table => Sql.text (table.createSql d)
  | raw s => Sql.text s.sql
  | select s => s.selectSql d
  | count s => s.countSql d
  | lookup columns table rows =>
    Sql.text ("SELECT " ++ quotedNames d columns ++ " FROM " ++ d.quote table ++ " WHERE ") ++
      RowMatch.allSql d rows
  | elements table owners => elementsSql table owners d
  | links s => s.sql d
  | insertDefaults table returning =>
    Sql.text (d.insertDefaults table ++ returningSql d (some returning))
  | insert table columns rows returning =>
    Sql.text ("INSERT INTO " ++ d.quote table ++ " (" ++ quotedNames d columns ++ ") VALUES ") ++
      Sql.join ", " (rows.map tupleSql) ++ Sql.text (returningSql d returning)
  | update table assignments rows =>
    Sql.text ("UPDATE " ++ d.quote table ++ " SET ") ++
      Sql.join ", " (assignments.map (Assignment.sql d)) ++ Sql.text " WHERE " ++
      RowMatch.allSql d rows
  | delete table rows =>
    Sql.text ("DELETE FROM " ++ d.quote table ++ " WHERE ") ++ RowMatch.allSql d rows

def statement (d : Dialect) : Command → Statement
  | raw s => s
  | c => (c.sql d).statement d

end Command

end EntityStore
