import EntityStore.Key
import EntityStore.Stored

/-!
Reading: rows of a query with the related rows and lists that belong to them, and counts.
-/
namespace EntityStore.Store

/-- Elements read for rows, each with the text of the key it belongs to. -/
abbrev Gathered := List (String × Json)

def takeColumn (name : String) (row : Record) : Json × Record :=
  ((Record.get? name row).getD .null, Record.erase name row)

def elementsOf (gathered : Gathered) (key : Option Json) : List Json :=
  match key with
  | some k => (gathered.filter fun g => g.1 == k.keyText).map Prod.snd
  | none => []

/-- Every row gets its elements as an array, an empty one where it has none. -/
def attach (key field : String) (gathered : Gathered) (rows : List Record) : List Record :=
  rows.map fun row => Record.set field (.arr (elementsOf gathered (Record.get? key row))) row

def linkedRow (r : Registry) (related : Schema) (row : Record) : String × Json :=
  let (owner, row) := takeColumn LinkSelection.ownerName row
  let (key, row) := takeColumn LinkSelection.relatedName row
  (owner.keyText, .obj (r.decodeRow related (Record.set related.primaryKey key row)))

/-- The columns of the related model that are read along with a link, which brings the key. -/
def linkColumns (related : Schema) (fetch : RelationFetch) : List (Expression × String) :=
  let names := fetch.fields.getD (related.fields.map Field.name)
  (names.filter fun n => n != related.primaryKey).filterMap fun n =>
    (related.expression? LinkSelection.relatedAlias n).map fun e => (e, n)

def fetchLinks (r : Registry) (s : Schema) (f : Field) (relation : Relation) (fetch : RelationFetch)
    (keys : List Json) : Run Gathered :=
  if keys.isEmpty then pure []
  else do
    let related ← Run.ofExcept (r.require relation.model)
    let result ← Run.send <| .links {
      join := JoinTable.of s.name f.name relation.model
      related := relation.model
      relatedKey := related.primaryKey
      columns := linkColumns related fetch
      owners := keys.map .ofId }
    pure (result.rows.map (linkedRow r related))

def listElement (items : Option FieldType) (row : Record) : String × Json :=
  let (owner, row) := takeColumn Schema.listOwner row
  let (value, _) := takeColumn Schema.listValue row
  (owner.keyText, match items with
    | some t => t.coerce value
    | none => value)

def fetchList (s : Schema) (f : Field) (keys : List Json) : Run Gathered :=
  if keys.isEmpty then pure []
  else do
    let result ← Run.send (.elements (Schema.listTable s.name f.name) (keys.map .ofId))
    pure (result.rows.map (listElement f.items))

def attachments (r : Registry) (s : Schema) (o : ReadOptions) (keys : List Json) :
    List (String × Run Gathered) :=
  let links := o.relations.filterMap fun fetch => do
    let f ← s.field? fetch.name
    match f.kind with
    | .manyToMany relation => some (f.name, fetchLinks r s f relation fetch keys)
    | _ => none
  let lists := s.listFields.filter fun f => o.fields.isEmpty || o.fields.contains f.name
  links ++ lists.map fun f => (f.name, fetchList s f keys)

def gather : List (String × Run Gathered) → Run (List (String × Gathered))
  | [] => pure []
  | (field, read) :: rest => do
    let gathered ← read
    let others ← gather rest
    pure ((field, gathered) :: others)

def complete (r : Registry) (s : Schema) (o : ReadOptions) (rows : List Record) :
    Run (List Record) :=
  let rows := rows.map (r.decodeRow s)
  if rows.isEmpty then pure []
  else do
    let keys := (rows.filterMap (Record.get? s.primaryKey)).filter fun k => !k.isNull
    let gathered ← gather (attachments r s o keys)
    pure (gathered.foldl (fun rows g => attach s.primaryKey g.1 g.2 rows) rows)

def find (r : Registry) (q : Query) : Run (List Record) :=
  Run.within .query do
    let selection ← Run.ofExcept (q.selection r)
    let result ← Run.send (.select selection)
    let s ← Run.ofExcept (r.require q.model)
    complete r s q.options result.rows

def findByKey (r : Registry) (model : String) (id : Json) (options : ReadOptions) :
    Run (List Record) := do
  let s ← Run.ofExcept (r.require model)
  find r { options, model, condition := some (.equals s.primaryKey id) }

def findByValues (r : Registry) (model : String) (values : Record) (options : ReadOptions) :
    Run (List Record) :=
  find r { options, model, condition := Condition.ofRecord? values }

/-- The rows with these keys, in the order of the keys. -/
def findByKeys (r : Registry) (model : String) (keys : List Json) : Run (List Record) :=
  if keys.isEmpty then pure []
  else
    let key := r.primaryKey model
    find r {
      options := { orderBy := [{ field := key }] }
      model
      condition := some (.any (keys.map (Condition.equals key))) }

def countOf : Option Json → Nat
  | some (.num n) => n.uint64?.getD 0
  | some (.str s) => (Text.readUInt64? (Text.trim s)).getD 0
  | _ => 0

def count (r : Registry) (q : Query) : Run Nat :=
  Run.within .query do
    let selection ← Run.ofExcept (q.selection r)
    let result ← Run.send (.count selection)
    pure (countOf (result.rows.head?.bind (Record.get? Selection.totalColumn)))

def countByValues (r : Registry) (model : String) (values : Record) : Run Nat :=
  count r { model, condition := Condition.ofRecord? values }

/-- The keys of the rows that match a condition. When nothing of it is stored, all rows match. -/
def matchingKeys (r : Registry) (model : String) (condition : Condition) : Run (List Json) := do
  let s ← Run.ofExcept (r.require model)
  let q : Query := {
    options := { fields := [s.primaryKey] }
    model
    condition := some condition }
  let selection ← Run.ofExcept (q.selection r)
  let result ← Run.send (.select selection)
  pure (result.column s.primaryKey)

end EntityStore.Store
