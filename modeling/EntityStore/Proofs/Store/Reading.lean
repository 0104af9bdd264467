import EntityStore.Proofs.Store.Linking
import EntityStore.Proofs.Store.Read

/-!
Reading writes nothing: whatever is read for a query or for keys, no command of it changes rows.
-/
namespace EntityStore

def Command.IsRead (c : Command) : Prop :=
  c.writesRows = false

namespace Store

open Run

variable {r : Registry}

theorem reads_fetchLinks (s : Schema) (f : Field) (relation : Relation) (fetch : RelationFetch)
    (keys : List Json) : Sends Command.IsRead (fetchLinks r s f relation fetch keys) := by
  unfold fetchLinks
  split
  · exact sends_pure _
  · refine (sends_ofExcept _).bind fun related => ?_
    exact Sends.bind (sends_send (by rfl)) fun result => sends_pure _

theorem reads_fetchList (s : Schema) (f : Field) (keys : List Json) :
    Sends Command.IsRead (fetchList s f keys) := by
  unfold fetchList
  split
  · exact sends_pure _
  · exact Sends.bind (sends_send (by rfl)) fun result => sends_pure _

theorem reads_attachments (s : Schema) (o : ReadOptions) (keys : List Json) :
    ∀ a ∈ attachments r s o keys, Sends Command.IsRead a.2 := by
  intro a ha
  rcases List.mem_append.mp ha with hlink | hlist
  · obtain ⟨fetch, -, hfetch⟩ := List.mem_filterMap.mp hlink
    obtain ⟨f, -, hread⟩ := Option.bind_eq_some_iff.mp hfetch
    split at hread
    · cases hread
      exact reads_fetchLinks s f _ fetch keys
    · cases hread
  · obtain ⟨f, -, rfl⟩ := List.mem_map.mp hlist
    exact reads_fetchList s f keys

theorem reads_complete (s : Schema) (o : ReadOptions) (rows : List Record) :
    Sends Command.IsRead (complete r s o rows) := by
  unfold complete
  dsimp only
  split
  · exact sends_pure _
  · exact (sends_gather (reads_attachments s o _)).bind fun gathered => sends_pure _

variable (r)

theorem reads_find (q : Query) : Sends Command.IsRead (find r q) := by
  refine Sends.within ?_ .query
  refine (sends_ofExcept _).bind fun selection => ?_
  refine Sends.bind (sends_send (by rfl)) fun result => ?_
  exact (sends_ofExcept _).bind fun s => reads_complete s _ _

theorem reads_findByKey (model : String) (id : Json) (options : ReadOptions) :
    Sends Command.IsRead (findByKey r model id options) :=
  (sends_ofExcept _).bind fun _ => reads_find r _

theorem reads_findByKeys (model : String) (keys : List Json) :
    Sends Command.IsRead (findByKeys r model keys) := by
  unfold findByKeys
  split
  · exact sends_pure _
  · exact reads_find r _

end Store

end EntityStore
