import EntityStore.Store.Write

/-!
Removing: rows with everything that belongs to them, and links. Weak relations spread a removal
to the related rows. Each row that is removed costs the server a reply that reports it, so a
removal that spreads ends when the replies do; the budget of `deleteWithin` counts them.
-/
namespace EntityStore.Store

inductive RelationTarget where
  | all
  | keys (ids : List Json)
  /-- The rows of the related model that match a condition. -/
  | matching (condition : Condition)

/-- A way to delete the row of a model with the given key. -/
abbrev Delete := String → Json → Run (List Json)

def currentReference (r : Registry) (model : String) (owner : Json) (field : String) :
    Run (Option Json) := do
  let result ← Run.send (.lookup [field] model [.equals (r.primaryKey model) (.ofId owner)])
  pure (result.rows.getLast?.bind (Record.get? field))

def linkedKeys (join : JoinTable) (owner : Json) (within : Option (List Json)) :
    Run (List Json) := do
  let restriction : List RowMatch := match within with
    | some ids => [.among join.related (ids.map .ofId)]
    | none => []
  let result ← Run.send <|
    .lookup [join.related] join.name (.equals join.owner (.ofId owner) :: restriction)
  pure (result.column join.related)

def deleteAllOf (delete : Delete) (model : String) : List Json → Run Unit
  | [] => pure ()
  | id :: rest => do
    let _ ← delete model id
    deleteAllOf delete model rest

/-- Clears the column of a reference, after deleting the related row of a weak relation. -/
def clearReference (r : Registry) (delete : Delete) (model : String) (owner : Json) (f : Field)
    (relation : Relation) (target : RelationTarget) : Run Unit := do
  if relation.weak then
    let current ← match target with
      | .keys (id :: _) => pure (some id)
      | _ => currentReference r model owner f.name
    match current with
    | some id => if id.isKey then do let _ ← delete relation.model id else pure ()
    | none => pure ()
  let _ ← Run.send <| .update model [⟨f.name, .zero⟩]
    [.equals (r.primaryKey model) (.ofId owner)]
  pure ()

def targetKeys (r : Registry) (relation : Relation) : RelationTarget → Run (Option (List Json))
  | .all => pure none
  | .keys ids => pure (some ids)
  | .matching condition => do
    let key := r.primaryKey relation.model
    let q : Query := {
      options := { fields := [key] }
      model := relation.model
      condition := some condition }
    let selection ← Run.ofExcept (q.selection r)
    let result ← Run.send (.select selection)
    pure (some (result.column key))

/-- Deletes the links to those of the target that are linked, and the rows of a weak relation. -/
def removeLinks (r : Registry) (delete : Delete) (model : String) (owner : Json) (f : Field)
    (relation : Relation) (target : RelationTarget) : Run Unit := do
  let within ← targetKeys r relation target
  if within matches some [] then pure ()
  else do
    let join := JoinTable.of model f.name relation.model
    let linked ← linkedKeys join owner within
    if linked.isEmpty then pure ()
    else do
      let _ ← Run.send <| .delete join.name
        [.equals join.owner (.ofId owner), .among join.related (linked.map .ofId)]
      if relation.weak then deleteAllOf delete relation.model linked else pure ()

def removeRelationBy (r : Registry) (delete : Delete) (model : String) (owner : Json)
    (field : String) (target : RelationTarget) : Run Unit := do
  let (f, relation) ← Run.ofExcept (relationField r model field)
  if f.isReference then clearReference r delete model owner f relation target
  else removeLinks r delete model owner f relation target

def weakFields (s : Schema) : List Field :=
  s.fields.filter fun f =>
    match f.kind.reference? with
    | some relation => relation.weak
    | none => false

def ownedReferences (s : Schema) (id : Json) : Run Record :=
  let fields := weakFields s
  if fields.isEmpty then pure []
  else do
    let result ← Run.send <| .lookup (fields.map Field.name) s.name
      [.equals s.primaryKey (.ofId id)]
    pure (result.rows.getLast?.getD [])

def deleteOwned (table column : String) (id : Json) : Run Unit := do
  let _ ← Run.send (.delete table [.equals column (.ofId id)])
  pure ()

def relationCleanup (r : Registry) (delete : Delete) (s : Schema) (id : Json) (owned : Record)
    (f : Field) : Option (Run Unit) :=
  match f.kind with
  | .manyToMany _ => some (removeRelationBy r delete s.name id f.name .all)
  | .oneToOne _ | .oneToMany _ =>
    match Record.get? f.name owned with
    | some current =>
      if current.isKey then some (removeRelationBy r delete s.name id f.name (.keys [current]))
      else none
    | none => none
  | .scalar _ | .list _ => none

/-- What is removed after a row: relations, lists and localized values. -/
def cleanups (r : Registry) (delete : Delete) (s : Schema) (id : Json) (owned : Record) :
    List (Run Unit) :=
  s.fields.filterMap (relationCleanup r delete s id owned) ++
    s.listFields.map (fun f => deleteOwned (Schema.listTable s.name f.name) Schema.listOwner id) ++
    if s.localizedFields.isEmpty then []
    else [deleteOwned (Schema.localizedTable s.name) s.primaryKey id]

/-- Deletes a row and then what belongs to it, whether or not each removal succeeds. -/
def deleteBy (r : Registry) (delete : Delete) (model : String) (id : Json) : Run (List Json) :=
  Run.within .delete do
    let s ← Run.ofExcept (r.require model)
    let owned ← ownedReferences s id
    let result ← Run.send (.delete model [.equals s.primaryKey (.ofId id)])
    if result.affected = 0 then pure []
    else do
      Run.inOrder ((cleanups r delete s id owned).map Run.ignoringFailure)
      pure [id]

/-- Deletes at most as many rows, one inside the other, as the budget allows. -/
def deleteWithin (r : Registry) : Nat → Delete
  | 0 => fun _ _ => pure []
  | budget + 1 => deleteBy r (deleteWithin r budget)

/-- A delete that spreads as long as the server reports deleted rows. -/
def deleteOne (r : Registry) : Delete := fun model id => do
  let s ← get
  deleteWithin r (s.replies.length + 1) model id

def removeRelation (r : Registry) (model : String) (owner : Json) (field : String)
    (target : RelationTarget) : Run Unit :=
  removeRelationBy r (deleteOne r) model owner field target

/-- Deletes the rows that match a condition, and nothing of what belongs to them. -/
def deleteAll (r : Registry) (model : String) (condition : Condition) : Run (List Json) :=
  Run.within .delete do
    let s ← Run.ofExcept (r.require model)
    let keys ← matchingKeys r model condition
    if keys.isEmpty then pure []
    else do
      let _ ← Run.send (.delete model [.among s.primaryKey (keys.map .ofId)])
      pure keys

end EntityStore.Store
