import EntityStore.Proofs.Store.Remove
import EntityStore.Store.Sync

/-!
The operations of a store. All but the one that makes the tables send commands that read and write
rows, and that the registry admits, however deeply they insert, link or delete.
-/
namespace EntityStore

open Run

inductive Operation where
  | findByKey (model : String) (id : Json) (options : ReadOptions)
  | findByValues (model : String) (values : Record) (options : ReadOptions)
  | find (q : Query)
  | count (q : Query)
  | countByValues (model : String) (values : Record)
  | insertOne (model : String) (value : Record)
  | insertAll (model : String) (values : List Record)
  | updateOne (model : String) (value : Record)
  | updateAll (model : String) (values : Record) (condition : Condition)
  | increase (model : String) (id : Json) (field : String) (delta : Json)
  | deleteOne (model : String) (id : Json)
  | deleteAll (model : String) (condition : Condition)
  | addRelation (model : String) (owner : Json) (field : String) (value : Json)
  | removeRelation (model : String) (owner : Json) (field : String) (target : Store.RelationTarget)
  | updateList (model : String) (owner : Json) (field : String) (values : Json)
  | init (o : CharsetSettings)

namespace Operation

def run (r : Registry) (d : Dialect) : Operation → Run Unit
  | findByKey model id options => do let _ ← Store.findByKey r model id options
  | findByValues model values options => do let _ ← Store.findByValues r model values options
  | find q => do let _ ← Store.find r q
  | count q => do let _ ← Store.count r q
  | countByValues model values => do let _ ← Store.countByValues r model values
  | insertOne model value => do let _ ← Store.insertOne r model value
  | insertAll model values => do let _ ← Store.insertAll r model values
  | updateOne model value => do let _ ← Store.updateOne r model value
  | updateAll model values condition => do let _ ← Store.updateAll r model values condition
  | increase model id field delta => do let _ ← Store.increase r model id field delta
  | deleteOne model id => do let _ ← Store.deleteOne r model id
  | deleteAll model condition => do let _ ← Store.deleteAll r model condition
  | addRelation model owner field value => Store.addRelation r model owner field value
  | removeRelation model owner field target => Store.removeRelation r model owner field target
  | updateList model owner field values => Store.updateList model owner field values
  | init o => Store.init r d o

/-- What holds of the commands that the registry admits, of those that replace a list and of those
that make the tables, holds of all that are sent. -/
theorem sends_run_of_admits {P : Command → Prop} (r : Registry) (d : Dialect)
    (hadmits : ∀ c, r.Admits c → P c) (op : Operation)
    (hlists : ∀ model owner field values, op = .updateList model owner field values →
      Sends P (Store.updateList model owner field values))
    (htables : ∀ (o : CharsetSettings) first, o.commands d = .ok first →
      ∀ c ∈ first ++ r.syncCommands d, P c) : Sends P (op.run r d) := by
  have hdrop : ∀ {α : Type} {m : Run α}, Sends r.Admits m → Sends P (do let _ ← m) := fun hm =>
    (hm.mono hadmits).bind fun _ => sends_pure _
  cases op with
  | findByKey model id options => exact hdrop (Store.sends_findByKey r model id options)
  | findByValues model values options =>
    exact hdrop (Store.sends_findByValues r model values options)
  | find q => exact hdrop (Store.sends_find r q)
  | count q => exact hdrop (Store.sends_count r q)
  | countByValues model values => exact hdrop (Store.sends_countByValues r model values)
  | insertOne model value => exact hdrop (Store.sends_insertMembers r value model)
  | insertAll model values => exact hdrop (Store.sends_insertAll model values)
  | updateOne model value => exact hdrop (Store.sends_updateOne r model value)
  | updateAll model values condition => exact hdrop (Store.sends_updateAll r model values condition)
  | increase model id field delta => exact hdrop (Store.sends_increase r model id field delta)
  | deleteOne model id => exact hdrop (Store.sends_deleteOne r model id)
  | deleteAll model condition => exact hdrop (Store.sends_deleteAll r model condition)
  | addRelation model owner field value =>
    exact (Store.sends_link r value model owner field).mono hadmits
  | removeRelation model owner field target =>
    exact (Store.sends_removeRelation r model owner field target).mono hadmits
  | updateList model owner field values => exact hlists model owner field values rfl
  | init o =>
    exact sends_ofExcept_bind fun first hfirst => sends_sendAll (htables o first hfirst)

/-- What holds of commands on rows, and of those that make the tables, holds of all that are
sent. -/
theorem sends_run {P : Command → Prop} (r : Registry) (d : Dialect)
    (hrows : ∀ c, c.touchesRows = true → P c)
    (htables : ∀ (o : CharsetSettings) first, o.commands d = .ok first →
      ∀ c ∈ first ++ r.syncCommands d, P c)
    (op : Operation) : Sends P (op.run r d) := by
  refine sends_run_of_admits r d (fun c hc => hrows c hc.touchesRows) op ?_ htables
  intro model owner field values _
  exact Store.sends_updateList model owner field values (fun p => hrows _ rfl)
    fun rows => hrows _ rfl

end Operation

end EntityStore
