import EntityStore.Store.Read
import EntityStore.Stored

/-!
Writing: inserts, updates, and the links, lists and localized values that go with them. An object
given for a weak relation is inserted first, with everything that is given for it in turn.
-/
namespace EntityStore.Store

def relationField (r : Registry) (model field : String) : Except Failure (Field × Relation) := do
  let s ← r.require model
  match s.field? field with
  | none => .error (.validation (.noField model field))
  | some f =>
    match f.kind.relation? with
    | none => .error (.validation (.notRelation model f.name))
    | some relation => .ok (f, relation)

def setReference (r : Registry) (model : String) (owner : Json) (field : String) (id : Json) :
    Run Unit := do
  let _ ← Run.send <| .update model [⟨field, .value (.ofId id)⟩]
    [.equals (r.primaryKey model) (.ofId owner)]
  pure ()

def insertLinks (join : JoinTable) (owner : Json) (ids : List Json) : Run Unit :=
  if ids.isEmpty then pure ()
  else do
    let _ ← Run.send <| .insert join.name [join.owner, join.related]
      (ids.map fun id => [.ofId owner, .ofId id]) none
    pure ()

/-- The elements that are stored for a list: those of an array that are not null, or one value. -/
def storedElements : Json → List Json
  | .null => []
  | .arr items => items.filter fun v => !v.isNull
  | v => [v]

def updateList (model : String) (owner : Json) (field : String) (values : Json) : Run Unit := do
  let table := Schema.listTable model field
  let _ ← Run.send (.delete table [.equals Schema.listOwner (.ofId owner)])
  let items := storedElements values
  if items.isEmpty then pure ()
  else do
    let _ ← Run.send <| .insert table [Schema.listOwner, Schema.listValue]
      (items.map fun v => [.ofId owner, .ofJson v]) none
    pure ()

def assignments (entries : List Entry) : List Assignment :=
  entries.map fun e => ⟨e.1.name, .value (e.1.parameter e.2)⟩

/-- Stores localized values in the row that a key has for them, which is made if there is none. -/
def writeLocalized (r : Registry) (model : String) (id : Json) (entries : List Entry) :
    Run Unit := do
  let table := Schema.localizedTable model
  let key := r.primaryKey model
  let row : List RowMatch := [.equals key (.ofId id)]
  let found ← Run.send (.lookup [key] table row)
  let _ ← Run.send <|
    if found.rows.isEmpty then
      .insert table (key :: entries.map fun e => e.1.name)
        [.ofId id :: entries.map fun e => e.1.parameter e.2] none
    else .update table (assignments entries) row
  pure ()

/-- The cell of a row: what the record says, else the default of the field, else NULL. -/
def cell (f : Field) (value : Record) : Parameter :=
  f.parameter (((Record.get? f.name value).or f.default).getD .null)

/-- The columns filled for several records: the key when each record has one, and every other
scalar that some record has. -/
def filledFields (s : Schema) (values : List Record) : List Field :=
  let keyed := values.all fun v =>
    match Record.get? s.primaryKey v with
    | some k => !k.isNull
    | none => false
  (s.ownFields.filter Field.isScalar).filter fun f =>
    if f.name = s.primaryKey then keyed else values.any fun v => v.contains f.name

def insertEmpty (model key : String) : Nat → Run (List Json)
  | 0 => pure []
  | n + 1 => do
    let result ← Run.send (.insertDefaults model key)
    let others ← insertEmpty model key n
    pure (result.insertedKeys key ++ others)

def insertAll (r : Registry) (model : String) (values : List Record) : Run (List Record) :=
  Run.within .insert do
    let s ← Run.ofExcept (r.require model)
    if values.isEmpty then pure []
    else
      let key := s.primaryKey
      let fields := filledFields s values
      if fields.isEmpty then do
        let keys ← insertEmpty model key values.length
        findByKeys r model keys
      else do
        let result ← Run.send <| .insert model (fields.map Field.name)
          (values.map fun v => fields.map fun f => cell f v) (some key)
        findByKeys r model (result.insertedKeys key)

/-- What an array of related values, or one value, stands for. -/
structure RelatedParts where
  keys : List Json := []
  fresh : List Record := []

def invalidRelated (field : String) : Failure := .validation (.invalidRelated field)

/-- A value leads to a related row by its key; a weak relation also takes an object without one. -/
def relatedPart (relation : Relation) (key field : String) : Json → Except Failure RelatedParts
  | .null => .ok {}
  | .obj members =>
    match Record.get? key members with
    | some id =>
      if id.isKey then .ok { keys := [id] }
      else if relation.weak then .ok { fresh := [members] }
      else .error (invalidRelated field)
    | none =>
      if relation.weak then .ok { fresh := [members] } else .error (invalidRelated field)
  | v => if v.isKey then .ok { keys := [v] } else .error (invalidRelated field)

def relatedParts (relation : Relation) (key field : String) :
    List Json → Except Failure RelatedParts
  | [] => .ok {}
  | v :: rest => do
    let first ← relatedPart relation key field v
    let others ← relatedParts relation key field rest
    .ok { keys := first.keys ++ others.keys, fresh := first.fresh ++ others.fresh }

/-- The keys of related rows, those of the objects inserted for a weak relation last. -/
def relatedKeys (r : Registry) (relation : Relation) (field : String) (value : Json) :
    Run (List Json) := do
  let key := r.primaryKey relation.model
  let items := match value with
    | .arr items => items
    | v => [v]
  let parts ← Run.ofExcept (relatedParts relation key field items)
  if parts.fresh.isEmpty then pure parts.keys
  else do
    let inserted ← insertAll r relation.model parts.fresh
    pure (parts.keys ++ inserted.filterMap (Record.get? key))

def insertRow (s : Schema) (value : Record) : Run Json := do
  let key := s.primaryKey
  let entries := s.insertedEntries value
  let result ← Run.send <|
    if entries.isEmpty then .insertDefaults s.name key
    else .insert s.name (entries.map fun e => e.1.name)
      [entries.map fun e => e.1.parameter e.2] (some key)
  match result.insertedKeys key, Record.get? key value with
  | id :: _, _ => pure id
  | [], some id =>
    if id.isNull then Run.fail ⟨.insert, .noKeyGenerated s.name⟩ else pure id
  | [], none => Run.fail ⟨.insert, .noKeyGenerated s.name⟩

def ownedWrites (r : Registry) (s : Schema) (id : Json) (value : Record) : List (Run Unit) :=
  let localized := s.localizedEntries value
  (s.listEntries value).map (fun e => updateList s.name id e.1.name e.2) ++
    if localized.isEmpty then [] else [writeLocalized r s.name id localized]

def storedKey (relation : Relation) (key field : String) (rows : List Record) : Run Json :=
  match rows.head?.bind (Record.get? key) with
  | some id => pure id
  | none => Run.fail ⟨.insert, .notStored relation.model field⟩

/-- A way to link something to an owner of the given model and key through a field. -/
abbrev Link := String → Json → String → Run Unit

mutual

/-- Links a value to an owner. Nothing is linked for null. -/
def link (r : Registry) : Json → Link
  | .null => fun _ _ _ => pure ()
  | .obj members => fun model owner field => do
    let (f, relation) ← Run.ofExcept (relationField r model field)
    if f.isReference then do
      let key := r.primaryKey relation.model
      let id ← match ← Run.ofExcept (relatedPart relation key f.name (.obj members)) with
        | ⟨id :: _, _⟩ => pure id
        | ⟨[], _⟩ => do
          let rows ← insertMembers r members relation.model
          storedKey relation key f.name rows
      setReference r model owner f.name id
    else do
      let ids ← relatedKeys r relation f.name (.obj members)
      insertLinks (JoinTable.of model f.name relation.model) owner ids
  | value => fun model owner field => do
    let (f, relation) ← Run.ofExcept (relationField r model field)
    if f.isReference then
      if value.isKey then setReference r model owner f.name value
      else Run.fail (invalidRelated f.name)
    else do
      let ids ← relatedKeys r relation f.name value
      insertLinks (JoinTable.of model f.name relation.model) owner ids

def insertMembers (r : Registry) (value : List (String × Json)) (model : String) :
    Run (List Record) :=
  let links := linksOf r value
  Run.within .insert do
    let s ← Run.ofExcept (r.require model)
    let id ← insertRow s value
    Run.inOrder <|
      (s.relationEntries value).map (fun e =>
        match links.lookup e.1.name with
        | some l => l model id e.1.name
        | none => pure ()) ++
      ownedWrites r s id value
    findByKey r model id {}

def linksOf (r : Registry) : List (String × Json) → List (String × Link)
  | [] => []
  | (k, v) :: rest => (k, link r v) :: linksOf r rest

end

def addRelation (r : Registry) (model : String) (owner : Json) (field : String) (value : Json) :
    Run Unit :=
  link r value model owner field

def insertOne (r : Registry) (model : String) (value : Record) : Run (List Record) :=
  insertMembers r value model

/-- Puts links in the place of all links of the owner. The rows that were linked stay. -/
def replaceLinks (r : Registry) (model : String) (owner : Json) (field : String) (value : Json) :
    Run Unit := do
  let (f, relation) ← Run.ofExcept (relationField r model field)
  let join := JoinTable.of model f.name relation.model
  let _ ← Run.send (.delete join.name [.equals join.owner (.ofId owner)])
  addRelation r model owner f.name value

/-- The writes of the relations in a record, where links are replaced and not added to. -/
def updatedRelation (r : Registry) (model : String) (id : Json) (e : Entry) : Run Unit :=
  match e.1.kind with
  | .manyToMany _ => replaceLinks r model id e.1.name e.2
  | _ => addRelation r model id e.1.name e.2

/-- Updates the row with the key of the record: first what lies outside the row, then the row. -/
def updateOne (r : Registry) (model : String) (value : Record) : Run (List Record) :=
  Run.within .update do
    let s ← Run.ofExcept (r.require model)
    let key := s.primaryKey
    match (Record.get? key value).filter fun v => !v.isNull with
    | none => Run.fail (.validation (.noKeyInValue model key))
    | some id => do
      Run.inOrder <|
        (s.relationEntries value).map (updatedRelation r model id) ++ ownedWrites r s id value
      let entries := s.assignedEntries value
      if entries.isEmpty then pure ()
      else do
        let _ ← Run.send (.update model (assignments entries) [.equals key (.ofId id)])
        pure ()
      findByKey r model id {}

def updateAll (r : Registry) (model : String) (values : Record) (condition : Condition) :
    Run (List Record) :=
  Run.within .update do
    let s ← Run.ofExcept (r.require model)
    let keys ← matchingKeys r model condition
    if keys.isEmpty then pure []
    else do
      let entries := s.assignedEntries values
      if entries.isEmpty then pure ()
      else do
        let _ ← Run.send <| .update model (assignments entries)
          [.among s.primaryKey (keys.map .ofId)]
        pure ()
      findByKeys r model keys

def isIncreasable (s : Schema) (field : String) : Bool :=
  match s.field? field with
  | some f => !f.isLocalized && (f.type.isIntegral || f.type.isDecimal)
  | none => false

def increase (r : Registry) (model : String) (id : Json) (field : String) (delta : Json) :
    Run (List Record) :=
  Run.within .update do
    let s ← Run.ofExcept (r.require model)
    if isIncreasable s field && delta.isNumber then do
      let _ ← Run.send <| .update model [⟨field, .increased (.ofJson delta)⟩]
        [.equals s.primaryKey (.ofId id)]
      findByKey r model id {}
    else Run.fail (.validation (.notIncreasable model field delta))

end EntityStore.Store
