import EntityStore.Proofs.Storage.Columns
import EntityStore.Proofs.Store.Failures
import EntityStore.Proofs.Store.Remove

/-!
Deleting one row. The delete fails as long as the row is there: with the read of what the row owns,
or with the row itself. Behind the row it does all that is left to do, and nothing of that fails it.
-/
namespace EntityStore

namespace Run

variable {s : Session} {c : Command}

theorem send_of_failure {f : ExecutionFailure} (h : s.replies[0]? = some (.failure f)) :
    send c s = (.error (f.reportedAs .query), s.after [c]) := by
  obtain ⟨_ | ⟨_ | _, rest⟩, sent⟩ := s
  · cases h
  · cases h
  · cases h
    rw [← f.toFailure_eq_reportedAs]
    rfl

/-- A server that has no more replies carries the command out. -/
theorem send_of_rows {result : RowSet} (h : s.replies[0]?.getD (.rows {}) = .rows result) :
    send c s = (.ok result, s.after [c]) := by
  obtain ⟨_ | ⟨_ | _, rest⟩, sent⟩ := s
  · cases h
    rfl
  · cases h
    rfl
  · cases h

end Run

namespace Store

open Run

variable {r : Registry} {delete : Delete} {s : Schema} {id : Json}

def ownedReads (s : Schema) (id : Json) : List Command :=
  if (weakFields s).isEmpty then []
  else [.lookup ((weakFields s).map Field.name) s.name [.equals s.primaryKey (.ofId id)]]

def rowDelete (s : Schema) (id : Json) : Command :=
  .delete s.name [.equals s.primaryKey (.ofId id)]

/-- These commands clear what belongs to a row outside of its table: its lists, its localized
values, and its links as far as they are looked for. -/
structure Clears (s : Schema) (id : Json) (commands : List Command) : Prop where
  lists : ∀ f ∈ s.listFields,
    .delete (Schema.listTable s.name f.name) [.equals Schema.listOwner (.ofId id)] ∈ commands
  links : ∀ f ∈ s.fields, ∀ relation, f.kind = .manyToMany relation →
    let join := JoinTable.of s.name f.name relation.model
    .lookup [join.related] join.name [.equals join.owner (.ofId id)] ∈ commands
  localized : s.localizedFields ≠ [] →
    .delete (Schema.localizedTable s.name) [.equals s.primaryKey (.ofId id)] ∈ commands

section Read

variable {session : Session}

theorem ownedReferences_of_failure (hreads : ownedReads s id ≠ []) {f : ExecutionFailure}
    (h : session.replies[0]? = some (.failure f)) :
    ownedReferences s id session =
      (.error (f.reportedAs .query), session.after (ownedReads s id)) := by
  unfold ownedReads at hreads ⊢
  unfold ownedReferences
  cases hfields : (weakFields s).isEmpty with
  | true =>
    rw [hfields] at hreads
    exact absurd rfl hreads
  | false =>
    simp only [Bool.false_eq_true, ↓reduceIte]
    rw [bind_apply, send_of_failure h]

theorem ownedReferences_of_rows
    (h : ∀ reply ∈ session.replies.take (ownedReads s id).length, reply.isRows = true) :
    ∃ owned, ownedReferences s id session = (.ok owned, session.after (ownedReads s id)) := by
  unfold ownedReads at h ⊢
  unfold ownedReferences
  cases hfields : (weakFields s).isEmpty with
  | true => exact ⟨[], rfl⟩
  | false =>
    simp only [hfields, Bool.false_eq_true, ↓reduceIte, List.length_singleton] at h ⊢
    obtain ⟨result, hresult⟩ : ∃ result, session.replies[0]?.getD (.rows {}) = .rows result := by
      obtain ⟨_ | ⟨_ | _, rest⟩, sent⟩ := session
      · exact ⟨_, rfl⟩
      · exact ⟨_, rfl⟩
      · cases h _ (List.mem_cons_self ..)
    rw [bind_apply, send_of_rows hresult]
    exact ⟨_, rfl⟩

end Read

section Removals

variable {owned : Record} {f : Field}

theorem mem_cleanups_of_list (hf : f ∈ s.listFields) :
    deleteOwned (Schema.listTable s.name f.name) Schema.listOwner id ∈
      cleanups r delete s id owned :=
  List.mem_append_left _ (List.mem_append_right _ (List.mem_map_of_mem hf))

theorem mem_cleanups_of_links (hf : f ∈ s.fields) {relation : Relation}
    (hkind : f.kind = .manyToMany relation) :
    removeRelationBy r delete s.name id f.name .all ∈ cleanups r delete s id owned := by
  refine List.mem_append_left _ (List.mem_append_left _ (List.mem_filterMap.mpr ⟨f, hf, ?_⟩))
  rw [relationCleanup, hkind]

theorem mem_cleanups_of_localized (h : s.localizedFields ≠ []) :
    deleteOwned (Schema.localizedTable s.name) s.primaryKey id ∈
      cleanups r delete s id owned := by
  refine List.mem_append_right _ ?_
  rw [if_neg (by simpa using h)]
  exact List.mem_singleton_self _

theorem emits_deleteOwned (table column : String) (id : Json) :
    Emits (.delete table [.equals column (.ofId id)]) (deleteOwned table column id) :=
  (emits_send _).bind fun _ => sends_pure (P := fun _ => True) ()

variable (hdelete : ∀ model id, Sends r.Admits (delete model id))
  (hs : r.schema? s.name = some s) (hnames : (s.fields.map Field.name).Nodup)

include hdelete hs hnames

/-- The links of a relation are looked for under the key of the owner. -/
theorem emits_removeRelationBy (hf : f ∈ s.fields) {relation : Relation}
    (hkind : f.kind = .manyToMany relation) :
    let join := JoinTable.of s.name f.name relation.model
    Emits (.lookup [join.related] join.name [.equals join.owner (.ofId id)])
      (removeRelationBy r delete s.name id f.name .all) := by
  intro join
  -- where names differ, the field that is found under the name is this one
  have hfound : relationField r s.name f.name = .ok (f, relation) := by
    have hfield := Schema.field?_name_self hnames hf
    simp only [relationField, Registry.require_eq_ok.mpr hs, hfield, hkind, bind, Except.bind,
      FieldKind.relation?]
  have hlinks : f.isReference = false := by simp [Field.isReference, hkind, FieldKind.reference?]
  have hremove : removeRelationBy r delete s.name id f.name .all =
      removeLinks r delete s.name id f relation .all := by
    rw [removeRelationBy, hfound, ofExcept_ok_bind]
    simp [hlinks]
  have hlooked : Emits (.lookup [join.related] join.name [.equals join.owner (.ofId id)])
      (linkedKeys join id none) :=
    (emits_send _).bind fun _ => sends_pure (P := r.Admits) _
  have hjoin := holds_join hs hf hkind
  rw [hremove]
  refine hlooked.bind (P := r.Admits) fun linked => ?_
  split
  · exact sends_pure _
  · refine (sends_send (.delete hjoin)).bind fun _ => ?_
    split
    · exact sends_deleteAllOf hdelete _ linked
    · exact sends_pure _

/-- Whatever of it fails, all that belongs to the row is cleared. -/
theorem clears_cleanups (id : Json) (owned : Record) (session : Session) :
    ∃ commands, (inOrder ((cleanups r delete s id owned).map ignoringFailure) session).2.sent =
      commands ++ session.sent ∧ Clears s id commands := by
  have hsends := sends_cleanups hdelete (Registry.schema?_mem hs) id owned
  obtain ⟨commands, hcommands, -⟩ := sends_inOrder
    (List.forall_mem_map.mpr fun m hm => (hsends m hm).ignoringFailure) session
  have hmem : ∀ {c : Command} {m : Run Unit}, m ∈ cleanups r delete s id owned → Emits c m →
      c ∈ commands := by
    intro c m hm hc
    obtain ⟨cs, hcs, hmem⟩ := emits_inOrder_ignoringFailure hsends hm hc session
    rw [hcommands] at hcs
    rwa [List.append_cancel_right hcs]
  refine ⟨commands, hcommands, ?_, ?_, ?_⟩
  · exact fun f hf => hmem (mem_cleanups_of_list hf) (emits_deleteOwned _ _ id)
  · intro f hf relation hkind
    exact hmem (mem_cleanups_of_links hf hkind)
      (emits_removeRelationBy hdelete hs hnames hf hkind)
  · exact fun h => hmem (mem_cleanups_of_localized h) (emits_deleteOwned _ _ id)

end Removals

section Row

variable {session : Session}

/-- A delete reads what the row owns, deletes the row, and goes on from there. -/
theorem deleteBy_registered (hs : r.schema? s.name = some s) :
    deleteBy r delete s.name id = within .delete (do
      let owned ← ownedReferences s id
      let result ← send (rowDelete s id)
      if result.affected = 0 then pure []
      else do
        inOrder ((cleanups r delete s id owned).map ignoringFailure)
        pure [id]) := by
  rw [deleteBy, Registry.require_eq_ok.mpr hs, ofExcept_ok_bind]
  rfl

theorem deleteBy_of_read_failure (hs : r.schema? s.name = some s) (hreads : ownedReads s id ≠ [])
    {f : ExecutionFailure} (h : session.replies[0]? = some (.failure f)) :
    deleteBy r delete s.name id session =
      (.error (f.reportedAs .delete), session.after (ownedReads s id)) := by
  rw [deleteBy_registered hs, within_apply, bind_apply, ownedReferences_of_failure hreads h]
  exact congrArg (·, _) (congrArg _ (f.within_reportedAs Category.reports_query .delete))

variable (hs : r.schema? s.name = some s)
  (hread : ∀ reply ∈ session.replies.take (ownedReads s id).length, reply.isRows = true)

include hs hread

theorem deleteBy_of_row_failure {f : ExecutionFailure}
    (h : session.replies[(ownedReads s id).length]? = some (.failure f)) :
    deleteBy r delete s.name id session =
      (.error (f.reportedAs .delete), session.after (rowDelete s id :: ownedReads s id)) := by
  obtain ⟨owned, howned⟩ := ownedReferences_of_rows hread
  have hnext : (session.after (ownedReads s id)).replies[0]? = some (.failure f) := by
    rw [← h, Session.after, List.getElem?_drop, Nat.add_zero]
  rw [deleteBy_registered hs, within_apply, bind_apply, howned]
  dsimp only
  rw [bind_apply, send_of_failure hnext, ← Session.after_append]
  exact congrArg (·, _) (congrArg _ (f.within_reportedAs Category.reports_query .delete))

/-- A row that is gone ends the delete; otherwise it goes through, and clears what belongs to the
row. -/
theorem deleteBy_of_rows (hnames : (s.fields.map Field.name).Nodup)
    (hdelete : ∀ model id, Sends r.Admits (delete model id)) {result : RowSet}
    (h : session.replies[(ownedReads s id).length]?.getD (.rows {}) = .rows result) :
    (result.affected = 0 → deleteBy r delete s.name id session =
      (.ok [], session.after (rowDelete s id :: ownedReads s id))) ∧
    (result.affected ≠ 0 → (deleteBy r delete s.name id session).1 = .ok [id] ∧
      ∃ commands, (deleteBy r delete s.name id session).2.sent =
        commands ++ rowDelete s id :: (ownedReads s id ++ session.sent) ∧
        Clears s id commands) := by
  obtain ⟨owned, howned⟩ := ownedReferences_of_rows hread
  have hnext : (session.after (ownedReads s id)).replies[0]?.getD (.rows {}) = .rows result := by
    rw [← h, Session.after, List.getElem?_drop, Nat.add_zero]
  rw [deleteBy_registered hs, within_apply, bind_apply, howned]
  dsimp only
  rw [bind_apply, send_of_rows hnext, ← Session.after_append]
  dsimp only
  constructor
  · intro hnone
    rw [if_pos hnone]
    rfl
  · intro hsome
    obtain ⟨commands, hcommands, hclears⟩ := clears_cleanups hdelete hs hnames id owned
      (session.after ([rowDelete s id] ++ ownedReads s id))
    have hdone := inOrder_ignoringFailure (cleanups r delete s id owned)
      (session.after ([rowDelete s id] ++ ownedReads s id))
    rw [if_neg hsome, bind_apply]
    rcases hrun : inOrder ((cleanups r delete s id owned).map ignoringFailure)
      (session.after ([rowDelete s id] ++ ownedReads s id)) with ⟨ended, last⟩
    rw [hrun] at hdone hcommands
    cases hdone
    exact ⟨rfl, commands, hcommands, hclears⟩

end Row

end Store

/-- The delete of a registered row fails with the read of what the row owns, if there is one, or
with the row itself, and does nothing behind either; a row that is not there ends it. Once the row
is deleted the delete gives its key, whatever the server replies from there on, and clears all that
belongs to the row. -/
theorem deleteOne_isolates_cleanup (r : Registry) {s : Schema} (hs : r.schema? s.name = some s)
    (hnames : (s.fields.map Field.name).Nodup) (id : Json) (replies : List Reply) :
    let start : Session := ⟨replies, []⟩
    let ended := Store.deleteOne r s.name id start
    let reads := Store.ownedReads s id
    let row := Store.rowDelete s id
    (∀ f, reads ≠ [] → replies[0]? = some (.failure f) →
      ended = (.error (f.reportedAs .delete), start.after reads)) ∧
    ((∀ reply ∈ replies.take reads.length, reply.isRows = true) →
      (∀ f, replies[reads.length]? = some (.failure f) →
        ended = (.error (f.reportedAs .delete), start.after (row :: reads))) ∧
      (∀ result, replies[reads.length]?.getD (.rows {}) = .rows result →
        (result.affected = 0 → ended = (.ok [], start.after (row :: reads))) ∧
        (result.affected ≠ 0 → ended.1 = .ok [id] ∧
          ∃ commands, ended.2.sent = commands ++ row :: reads ∧ Store.Clears s id commands))) := by
  intro start ended reads row
  have hended : ended = Store.deleteBy r (Store.deleteWithin r replies.length) s.name id start :=
    rfl
  have hdelete := Store.sends_deleteWithin r replies.length
  rw [hended]
  refine ⟨fun f hreads h => Store.deleteBy_of_read_failure hs hreads h, ?_⟩
  intro (hread : ∀ reply ∈ start.replies.take reads.length, reply.isRows = true)
  refine ⟨?_, ?_⟩
  · exact fun f h => Store.deleteBy_of_row_failure hs hread h
  · intro result h
    have hrows := Store.deleteBy_of_rows hs hread hnames hdelete h
    rwa [show Store.ownedReads s id ++ start.sent = reads from List.append_nil _] at hrows

namespace Sample

def trip : Schema where
  name := "Trip"
  fields := [
    { name := "title", type := .string, multilingual := true },
    (Field.ofRelation "plan" "Plan" .oneToOne).makeWeak,
    .ofRelation "guides" "Guide" .manyToMany,
    .ofList "stops" .string]

def trips : Registry := ⟨[trip, { name := "Plan" }, { name := "Guide" }], rfl⟩

/-- The row of a trip is read and deleted, and then the server is gone. -/
def cutOff : List Reply :=
  [.rows { rows := [[("plan", .ofInt 7)]] }, .rows { affected := 1 }] ++
    List.replicate 5 (.failure (.connection "gone"))

end Sample

open Sample in
/-- A trip is deleted although nothing that belongs to it can be. -/
theorem deleteOne_isolates_cleanup_of_trip :
    trips.schema? trip.name = some trip ∧ (trip.fields.map Field.name).Nodup ∧
    (Store.deleteOne trips trip.name (.ofInt 1) ⟨cutOff, []⟩).1 = .ok [.ofInt 1] ∧
    ∃ commands, (Store.deleteOne trips trip.name (.ofInt 1) ⟨cutOff, []⟩).2.sent =
      commands ++ Store.rowDelete trip (.ofInt 1) :: Store.ownedReads trip (.ofInt 1) ∧
      .delete "TripStopsList" [.equals "fk" (.ofId (.ofInt 1))] ∈ commands := by
  have hs : trips.schema? trip.name = some trip := rfl
  have hnames : (trip.fields.map Field.name).Nodup := by decide
  obtain ⟨-, hanswered⟩ := deleteOne_isolates_cleanup trips hs hnames (.ofInt 1) cutOff
  have hread : cutOff.take (Store.ownedReads trip (.ofInt 1)).length =
      [.rows { rows := [[("plan", .ofInt 7)]] }] := rfl
  obtain ⟨-, hrows⟩ := hanswered (by simp [hread, Reply.isRows])
  obtain ⟨hdone, commands, hcommands, hclears⟩ := (hrows { affected := 1 } rfl).2 (by decide)
  refine ⟨hs, hnames, hdone, commands, hcommands, ?_⟩
  exact hclears.lists (.ofList "stops" .string) (List.mem_singleton_self _)

end EntityStore
