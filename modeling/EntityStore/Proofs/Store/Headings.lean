import EntityStore.Proofs.Session.Headings
import EntityStore.Proofs.Store.Cleanup
import EntityStore.Proofs.Store.Linking
import EntityStore.Proofs.Store.Removal
import Mathlib

/-!
Under which heading the writes of relations and lists report a refused statement. Their own
statements are reported as queries. Related rows are inserted and deleted by operations with
headings of their own, and nothing puts these under a common one.
-/
namespace EntityStore

open Run

theorem Category.reports_delete : delete.Reports :=
  rfl

namespace Store

variable {r : Registry} {model field : String} {owner value : Json} {f : Field}
  {relation : Relation} {target : RelationTarget} {under : Category → Prop}

/-- Linking the value inserts rows: something in it has no key, and the relation is weak. -/
def InsertsRelated (r : Registry) (model field : String) (value : Json) : Prop :=
  value ≠ .null ∧ ∃ f relation parts, relationField r model field = .ok (f, relation) ∧
    relatedParts relation (r.primaryKey relation.model) f.name (linkedItems f value) = .ok parts ∧
    parts.fresh ≠ []

/-- The target may lead to rows: links to no key at all do not, nor does a reference for which
something else than a key is given. -/
def RelationTarget.Reaches (f : Field) : RelationTarget → Prop
  | .keys [] => f.isReference = true
  | .keys (id :: _) => f.isReference = true → id.isKey = true
  | .all | .matching _ => True

def DeletesRelated (r : Registry) (model field : String) (target : RelationTarget) : Prop :=
  ∃ f relation, relationField r model field = .ok (f, relation) ∧ relation.weak = true ∧
    target.Reaches f

section Linking

/-- Where nothing is inserted, all that is sent is the store's own. -/
theorem failsFast_link_of_keys (hquery : under .query)
    (hkeys : ¬ InsertsRelated r model field value) (owner : Json) :
    FailsFast under (link r value model owner field) := by
  by_cases hnull : value = .null
  · subst hnull
    rw [link]
    exact failsFast_pure _
  · rw [link_eq hnull]
    refine failsFast_check_bind (fun _ => isRefusal_of_relationField) fun found hfound => ?_
    obtain ⟨f, relation⟩ := found
    have hnone : ∀ parts, relatedParts relation (r.primaryKey relation.model) f.name
        (linkedItems f value) = .ok parts → parts.fresh = [] := by
      intro parts hparts
      by_contra hfresh
      exact hkeys ⟨hnull, f, relation, parts, hfound, hparts, hfresh⟩
    unfold linkThrough
    dsimp only
    split
    · next hreference =>
      refine failsFast_check_bind (fun _ => isRefusal_of_relatedPart) fun parts hparts => ?_
      have hfresh := hnone parts ((relatedParts_of_reference hreference _).trans hparts)
      rcases relatedPart_ok hnull hparts with ⟨id, rfl⟩ | ⟨-, members, -, rfl⟩
      · exact (failsFast_pure id).bind fun id => failsFast_setReference hquery _ _ _ id
      · cases hfresh
    · next hlinks =>
      rw [relatedKeys_of_links hlinks]
      refine FailsFast.bind ?_ fun ids => failsFast_insertLinks hquery _ owner ids
      refine failsFast_check_bind (fun _ => isRefusal_of_relatedParts) fun parts hparts => ?_
      rw [if_pos (by rw [hnone parts hparts]; rfl)]
      exact failsFast_pure _

theorem emits_insertAll {s : Schema} (hs : r.schema? model = some s) {values : List Record}
    (hvalues : values ≠ []) : ∃ c, Emits c (insertAll r model values) := by
  have hname := Registry.schema?_name hs
  subst hname
  rw [insertAll, Registry.require_eq_ok.mpr hs, ofExcept_ok_bind, if_neg (by simpa using hvalues)]
  dsimp only
  split
  · obtain ⟨n, hn⟩ := Nat.exists_eq_succ_of_ne_zero (mt List.length_eq_zero_iff.mp hvalues)
    have hempty := sends_insertEmpty (.key (Registry.schema?_mem hs)) n
    have hemits : Emits (.insertDefaults s.name s.primaryKey)
        (insertEmpty s.name s.primaryKey (n + 1)) :=
      (emits_send _).bind fun result => hempty.bind fun others => sends_pure _
    rw [hn]
    exact ⟨_, (hemits.bind fun keys => sends_findByKeys r _ keys).within _⟩
  · exact ⟨_, ((emits_send _).bind fun result => sends_findByKeys r _ _).within _⟩

/-- Where rows are inserted, the first statement is an insert, and is reported as one. -/
theorem link_of_first_failure (hinserts : InsertsRelated r model field value) (owner : Json)
    {session : Session} {failure : ExecutionFailure}
    (h : session.replies[0]? = some (.failure failure)) :
    ∃ session', link r value model owner field session =
      (.error (failure.reportedAs .insert), session') := by
  obtain ⟨hnull, f, relation, parts, hfound, hparts, hfresh⟩ := hinserts
  obtain ⟨t, ht⟩ := exists_target hfound
  have hinsert : (fun category => category = Category.insert) .insert := rfl
  by_cases hreference : f.isReference = true
  · rw [relatedParts_of_reference hreference] at hparts
    rcases relatedPart_ok hnull hparts with ⟨id, rfl⟩ | ⟨-, members, rfl, rfl⟩
    · exact absurd rfl hfresh
    · obtain ⟨c, -, hemits⟩ := emits_insertMembers ht members
      obtain ⟨_, session', rfl, hrun⟩ := (failsFast_insertMembers hinsert members
        relation.model).of_first_failure hemits h
      rw [link_of_reference hnull hfound hreference hparts]
      exact ⟨session', bind_of_error (bind_of_error hrun)⟩
  · obtain ⟨c, hemits⟩ := emits_insertAll ht hfresh
    obtain ⟨_, session', rfl, hrun⟩ := (failsFast_insertAll hinsert relation.model
      parts.fresh).of_first_failure hemits h
    rw [link_of_links hnull hfound hreference, relatedKeys_of_links hreference]
    dsimp only
    rw [hparts, ofExcept_ok_bind, if_neg (by simpa using hfresh)]
    exact ⟨session', bind_of_error (bind_of_error hrun)⟩

end Linking

section Unlinking

variable {delete : Delete}

theorem reportsLast_deleteAllOf (hdelete : ∀ id, ReportsLast under (delete model id))
    (ids : List Json) : ReportsLast under (deleteAllOf delete model ids) := by
  induction ids with
  | nil => exact (failsFast_pure ()).reportsLast
  | cons id rest ih => exact (hdelete id).bind fun _ => ih

theorem failsFast_targetKeys (hquery : under .query) (relation : Relation)
    (target : RelationTarget) : FailsFast under (targetKeys r relation target) := by
  cases target with
  | all => exact failsFast_pure _
  | keys ids => exact failsFast_pure _
  | matching condition =>
    refine failsFast_check_bind (fun _ => Query.isRefusal_of_selection) fun selection _ => ?_
    exact (failsFast_send _ hquery).bind fun result => failsFast_pure _

variable (hquery : under .query)

include hquery

theorem reportsLast_clearReference (hreference : f.isReference = true)
    (hdelete : relation.weak = true → target.Reaches f →
      ∀ id, ReportsLast under (delete relation.model id)) :
    ReportsLast under (clearReference r delete model owner f relation target) := by
  have hclear : ReportsLast under (send (referenceClear r model owner f) >>= fun _ => pure ()) :=
    ((failsFast_send _ hquery).bind fun _ => failsFast_pure ()).reportsLast
  unfold clearReference
  split
  · next hweak =>
    -- the row that a key leads to is deleted first, and then the column is cleared
    have hlead : ∀ id : Json, (id.isKey = true → target.Reaches f) →
        ReportsLast under (if id.isKey then do
            let _ ← delete relation.model id
            let _ ← send (referenceClear r model owner f)
            pure ()
          else send (referenceClear r model owner f) >>= fun _ => pure ()) := by
      intro id hreaches
      split
      · next hkey => exact (hdelete hweak (hreaches hkey) id).bind fun _ => hclear
      · exact hclear
    have hread : FailsFast under (currentReference r model owner f.name) :=
      (failsFast_send _ hquery).bind fun result => failsFast_pure _
    rcases target with _ | ⟨_ | ⟨id, rest⟩⟩ | condition
    on_goal 3 => exact hlead id fun hkey _ => hkey
    all_goals
      refine hread.reportsLast.bind fun current => ?_
      cases current with
      | none => exact hclear
      | some id => exact hlead id fun _ => by first | exact hreference | trivial
  · exact hclear

theorem reportsLast_removeLinks (hlinks : ¬ f.isReference = true)
    (hdelete : relation.weak = true → target.Reaches f →
      ∀ id, ReportsLast under (delete relation.model id)) :
    ReportsLast under (removeLinks r delete model owner f relation target) := by
  by_cases hreaches : target.Reaches f
  · refine (failsFast_targetKeys hquery relation target).reportsLast.bind fun named => ?_
    split
    · exact (failsFast_pure ()).reportsLast
    · refine ReportsLast.bind ?_ fun linked => ?_
      · exact ((failsFast_send _ hquery).bind fun result => failsFast_pure _).reportsLast
      · split
        · exact (failsFast_pure ()).reportsLast
        · refine (failsFast_send _ hquery).reportsLast.bind fun _ => ?_
          split
          · next hweak => exact reportsLast_deleteAllOf (hdelete hweak hreaches) linked
          · exact (failsFast_pure ()).reportsLast
  · rcases target with _ | ⟨_ | ⟨id, rest⟩⟩ | condition
    · exact absurd trivial hreaches
    · exact (failsFast_pure ()).reportsLast
    · exact absurd (fun hreference => absurd hreference hlinks) hreaches
    · exact absurd trivial hreaches

theorem reportsLast_removeRelationBy
    (hdelete : DeletesRelated r model field target →
      ∀ related id, ReportsLast under (delete related id)) :
    ReportsLast under (removeRelationBy r delete model owner field target) := by
  refine reportsLast_check_bind (fun _ => isRefusal_of_relationField) fun found hfound => ?_
  obtain ⟨f, relation⟩ := found
  have hrelated : relation.weak = true → target.Reaches f →
      ∀ id, ReportsLast under (delete relation.model id) :=
    fun hweak hreaches => hdelete ⟨f, relation, hfound, hweak, hreaches⟩ relation.model
  dsimp only
  split
  · next hreference => exact reportsLast_clearReference hquery hreference hrelated
  · next hlinks => exact reportsLast_removeLinks hquery hlinks hrelated

end Unlinking

section Deleting

variable {delete : Delete}
  (hdelete : ∀ related id, ReportsLast Category.Reports (delete related id))

omit hdelete in
theorem removal_of_relationCleanup {s : Schema} {id : Json} {owned : Record} {m : Run Unit}
    (h : relationCleanup r delete s id owned f = some m) :
    ∃ target, m = removeRelationBy r delete s.name id f.name target := by
  unfold relationCleanup at h
  split at h
  · cases h
    exact ⟨_, rfl⟩
  · split at h
    · split at h <;> cases h
      exact ⟨_, rfl⟩
    · cases h
  · split at h
    · split at h <;> cases h
      exact ⟨_, rfl⟩
    · cases h
  · cases h
  · cases h

include hdelete

theorem reportsLast_cleanups (s : Schema) (id : Json) (owned : Record) :
    ∀ m ∈ cleanups r delete s id owned, ReportsLast Category.Reports m := by
  have hunlinked : ∀ name target,
      ReportsLast Category.Reports (removeRelationBy r delete s.name id name target) :=
    fun name target => reportsLast_removeRelationBy Category.reports_query fun _ => hdelete
  have howned : ∀ table column, ReportsLast Category.Reports (deleteOwned table column id) :=
    fun table column => ((failsFast_send _ Category.reports_query).bind fun _ =>
      failsFast_pure ()).reportsLast
  intro m hm
  rcases List.mem_append.mp hm with hrows | hlocalized
  · rcases List.mem_append.mp hrows with hrelations | hlists
    · obtain ⟨f, -, hcleanup⟩ := List.mem_filterMap.mp hrelations
      obtain ⟨target, rfl⟩ := removal_of_relationCleanup hcleanup
      exact hunlinked _ _
    · obtain ⟨f, -, rfl⟩ := List.mem_map.mp hlists
      exact howned _ _
  · split at hlocalized
    · cases hlocalized
    · rw [List.mem_singleton.mp hlocalized]
      exact howned _ _

/-- A delete is put under its own heading, whatever it spreads to. -/
theorem reportsLast_deleteBy (hunder : under .delete) (model : String) (id : Json) :
    ReportsLast under (deleteBy r delete model id) := by
  refine ReportsLast.within ?_ hunder
  refine reportsLast_check_bind (fun _ => Registry.isRefusal_of_require) fun s _ => ?_
  refine (failsFast_ownedReferences Category.reports_query s id).reportsLast.bind fun owned => ?_
  refine (failsFast_send _ Category.reports_query).reportsLast.bind fun result => ?_
  split
  · exact (failsFast_pure _).reportsLast
  · refine (reportsLast_inOrder fun m hm => ?_).bind fun _ => (failsFast_pure _).reportsLast
    obtain ⟨cleanup, hcleanup, rfl⟩ := List.mem_map.mp hm
    exact (reportsLast_cleanups hdelete s id owned cleanup hcleanup).ignoringFailure

omit hdelete in
theorem reportsLast_deleteWithin (hunder : under .delete) (budget : Nat) (model : String)
    (id : Json) : ReportsLast under (deleteWithin r budget model id) := by
  induction budget generalizing under model id with
  | zero => exact (failsFast_pure _).reportsLast
  | succ budget ih => exact reportsLast_deleteBy (ih Category.reports_delete) hunder model id

omit hdelete in
theorem reportsLast_deleteOne (hunder : under .delete) (model : String) (id : Json) :
    ReportsLast under (deleteOne r model id) :=
  fun s => reportsLast_deleteWithin hunder (s.replies.length + 1) model id s

end Deleting

section Spreading

variable {session : Session} {failure : ExecutionFailure}

/-- The first command of a delete is reported as one, whether it reads or deletes. -/
theorem deleteOne_of_first_failure {t : Schema} (ht : r.schema? model = some t) (id : Json)
    (h : session.replies[0]? = some (.failure failure)) :
    ∃ session', deleteOne r model id session =
      (.error (failure.reportedAs .delete), session') := by
  have hname := Registry.schema?_name ht
  subst hname
  by_cases hreads : ownedReads t id = []
  · exact ⟨_, deleteBy_of_row_failure ht (by simp [hreads]) (by simpa [hreads] using h)⟩
  · exact ⟨_, deleteBy_of_read_failure ht hreads h⟩

theorem clearLeading_of_first_failure {t : Schema} (ht : r.schema? relation.model = some t)
    {id : Json} (hkey : id.isKey = true) (h : session.replies[0]? = some (.failure failure)) :
    ∃ session', clearLeading r model owner f relation (some id) session =
      (.error (failure.reportedAs .delete), session') := by
  obtain ⟨session', hdelete⟩ := deleteOne_of_first_failure ht id h
  refine ⟨session', ?_⟩
  rw [clearLeading]
  dsimp only
  rw [if_pos hkey]
  exact bind_of_error hdelete

def keyRow (column : String) : RowSet :=
  { rows := [[(column, .ofInt 1)]] }

theorem column_keyRow (column : String) : (keyRow column).column column = [.ofInt 1] := by
  simp [keyRow, RowSet.column, Record.get?]

theorem last_keyRow (column : String) :
    (keyRow column).rows.getLast?.bind (Record.get? column) = some (.ofInt 1) := by
  simp [keyRow, Record.get?]

theorem removeNamed_of_failed_delete (hweak : relation.weak = true) {t : Schema}
    (ht : r.schema? relation.model = some t) (join : JoinTable) (named : Option (List Json))
    (h : session.replies = [.rows (keyRow join.related), .rows {}, .failure failure]) :
    ∃ session', removeNamed r join owner relation named session =
      (.error (failure.reportedAs .delete), session') := by
  have hlinked : linkedKeys join owner named session =
      (.ok [.ofInt 1], session.after [linksRead join owner named]) := by
    have hread : send (linksRead join owner named) session = (.ok (keyRow join.related), _) :=
      send_of_rows (by rw [h]; rfl)
    refine (bind_of_ok hread).trans ?_
    rw [column_keyRow]
    rfl
  have hunlinked : send (linkedDelete join owner [.ofInt 1])
      (session.after [linksRead join owner named]) = (.ok {}, _) :=
    send_of_rows (by rw [Session.after, h]; rfl)
  have hnext : ((session.after [linksRead join owner named]).after
      [linkedDelete join owner [.ofInt 1]]).replies[0]? = some (.failure failure) := by
    simp [Session.after, h]
  obtain ⟨session', hdelete⟩ := deleteOne_of_first_failure ht (.ofInt 1) hnext
  refine ⟨session', ?_⟩
  rw [removeNamed, bind_of_ok hlinked, if_neg (by simp), removeLinked, bind_of_ok hunlinked,
    if_pos hweak, deleteAllOf]
  exact bind_of_error hdelete

/-- The keys that a target names are asked for first. -/
theorem removeLinks_of_named {session' : Session} {named : Option (List Json)}
    (hnamed : targetKeys r relation target session = (.ok named, session'))
    (hsome : named ≠ some []) :
    removeLinks r (deleteOne r) model owner f relation target session =
      removeNamed r (JoinTable.of model f.name relation.model) owner relation named session' := by
  rw [removeLinks, bind_of_ok hnamed]
  split
  · exact absurd rfl hsome
  · rfl

/-- Wherever the target leads to, the server may report a row there and then fail its delete. -/
theorem removeRelation_of_failed_delete (hdeletes : DeletesRelated r model field target)
    (owner : Json) (failure : ExecutionFailure) :
    ∃ replies session', removeRelation r model owner field target ⟨replies, []⟩ =
      (.error (failure.reportedAs .delete), session') := by
  obtain ⟨f, relation, hfound, hweak, hreaches⟩ := hdeletes
  obtain ⟨t, ht⟩ := exists_target hfound
  rw [removeRelation, removeRelationBy, hfound, ofExcept_ok_bind]
  dsimp only
  split
  · next hreference =>
    rw [clearReference_of_weak hweak]
    have hread : ∃ replies session',
        (currentReference r model owner f.name >>= clearLeading r model owner f relation)
          ⟨replies, []⟩ = (.error (failure.reportedAs .delete), session') := by
      have hcurrent : currentReference r model owner f.name
          ⟨[.rows (keyRow f.name), .failure failure], []⟩ =
          (.ok (some (.ofInt 1)), ⟨[.failure failure], [referenceRead r model owner f]⟩) := by
        have hsent : send (referenceRead r model owner f)
            ⟨[.rows (keyRow f.name), .failure failure], []⟩ = (.ok (keyRow f.name), _) :=
          send_of_rows rfl
        refine (bind_of_ok hsent).trans ?_
        rw [last_keyRow]
        rfl
      refine ⟨[.rows (keyRow f.name), .failure failure], ?_⟩
      rw [bind_of_ok hcurrent]
      exact clearLeading_of_first_failure ht rfl rfl
    rcases target with _ | ⟨_ | ⟨id, rest⟩⟩ | condition
    · exact hread
    · exact hread
    · exact ⟨[.failure failure], clearLeading_of_first_failure ht (hreaches hreference) rfl⟩
    · exact hread
  · next hlinks =>
    let join := JoinTable.of model f.name relation.model
    let replies : List Reply := [.rows (keyRow join.related), .rows {}, .failure failure]
    have hremove : ∀ {first named sent},
        targetKeys r relation target ⟨first, []⟩ = (.ok named, ⟨replies, sent⟩) →
        named ≠ some [] → ∃ session', removeLinks r (deleteOne r) model owner f relation target
          ⟨first, []⟩ = (.error (failure.reportedAs .delete), session') := by
      intro first named sent hnamed hsome
      rw [removeLinks_of_named hnamed hsome]
      exact removeNamed_of_failed_delete hweak ht join named rfl
    rcases target with _ | ⟨_ | ⟨id, rest⟩⟩ | condition
    · exact ⟨replies, hremove rfl (by simp)⟩
    · exact absurd hreaches hlinks
    · exact ⟨replies, hremove rfl (by simp)⟩
    · -- the keys of the rows that match are read first, and one of them is linked
      have hrequired : r.schema? (keyQuery r relation.model condition).model = some t := ht
      obtain ⟨selection, hselection⟩ := exists_selection hrequired rfl rfl
      rw [keyQuery] at hselection
      let key := r.primaryKey relation.model
      have hread : send (.select selection) ⟨.rows (keyRow key) :: replies, []⟩ =
          (.ok (keyRow key), ⟨replies, [.select selection]⟩) := rfl
      have hmatching : targetKeys r relation (.matching condition)
          ⟨.rows (keyRow key) :: replies, []⟩ =
          (.ok (some [.ofInt 1]), ⟨replies, [.select selection]⟩) := by
        rw [targetKeys]
        simp only [hselection, ofExcept_ok_bind]
        refine (bind_of_ok hread).trans ?_
        rw [column_keyRow]
        rfl
      exact ⟨_, hremove hmatching (by simp)⟩

end Spreading

end Store

/-- Whatever the server replies, a failure of it is the reply to the last command. A refused
statement of a call that links, unlinks or lists is reported as a query, with two exceptions, which
take the headings of the operations called on the way: the insert of related rows is reported as an
insert, and their delete as a delete. A call reports queries only exactly when it has no part of
the kind. -/
theorem refused_statements_headed (r : Registry) (model field : String) (owner : Json) :
    (∀ value, let adding := Store.addRelation r model owner field value
      (ReportsUnder (· = .query) adding ↔ ¬ Store.InsertsRelated r model field value) ∧
      ReportsUnder (fun c => c = .query ∨ c = .insert) adding) ∧
    (∀ target, let removing := Store.removeRelation r model owner field target
      (ReportsUnder (· = .query) removing ↔ ¬ Store.DeletesRelated r model field target) ∧
      ReportsUnder (fun c => c = .query ∨ c = .delete) removing) ∧
    ∀ values, ReportsUnder (· = .query) (Store.updateList model owner field values) := by
  let refusal : ExecutionFailure := .statement "refused"
  refine ⟨fun value => ⟨⟨fun hadding hinserts => ?_, fun hkeys => ?_⟩, ?_⟩,
    fun target => ⟨⟨fun hremoving hdeletes => ?_, fun hkept => ?_⟩, ?_⟩, fun values => ?_⟩
  · obtain ⟨session', hfailed⟩ := Store.link_of_first_failure hinserts owner
      (show (Session.mk [.failure refusal] []).replies[0]? = some (.failure refusal) from rfl)
    cases hadding.under_of_statement (by decide) (congrArg Prod.fst hfailed)
  · have hfast : FailsFast (· = .query) (Store.link r value model owner field) := by
      refine Store.failsFast_link_of_keys ?_ hkeys owner
      rfl
    exact hfast.reportsLast.reportsUnder
  · refine (FailsFast.reportsLast ?_).reportsUnder
    refine Store.failsFast_link ?_ ?_ value model owner field
    · exact .inl rfl
    · exact .inr rfl
  · obtain ⟨replies, session', hfailed⟩ :=
      Store.removeRelation_of_failed_delete hdeletes owner refusal
    cases hremoving.under_of_statement (by decide) (congrArg Prod.fst hfailed)
  · have hlast : ReportsLast (· = .query) (Store.removeRelation r model owner field target) :=
      Store.reportsLast_removeRelationBy rfl fun hdeletes => absurd hdeletes hkept
    exact hlast.reportsUnder
  · refine ReportsLast.reportsUnder (Store.reportsLast_removeRelationBy ?_ fun _ => ?_)
    · exact .inl rfl
    · exact Store.reportsLast_deleteOne (.inr rfl)
  · have hfast : FailsFast (· = .query) (Store.updateList model owner field values) := by
      refine Store.failsFast_updateList ?_ model owner field values
      rfl
    exact hfast.reportsLast.reportsUnder

namespace Sample

def owners : Registry := ⟨[
  { name := "Person", fields := [(Field.ofRelation "pet" "Pet" .oneToOne).makeWeak] },
  { name := "Pet" }], rfl⟩

def locked : Reply := .failure (.statement "database is locked")

def takePet : Run Unit := Store.addRelation owners "Person" (.ofInt 1) "pet" (.obj [])

def leavePet : Run Unit := Store.removeRelation owners "Person" (.ofInt 1) "pet" .all

end Sample

open Sample in
/-- A pet that is there already is taken with queries only; for a new one a row is inserted. -/
theorem refused_statements_headed_of_pets :
    ReportsUnder (· = .query) (Store.addRelation owners "Person" (.ofInt 1) "pet" (.ofInt 7)) ∧
    ¬ ReportsUnder (· = .query) (Store.addRelation owners "Person" (.ofInt 1) "pet" (.obj [])) := by
  obtain ⟨hadding, -, -⟩ := refused_statements_headed owners "Person" "pet" (.ofInt 1)
  refine ⟨(hadding (.ofInt 7)).1.mpr ?_, mt (hadding (.obj [])).1.mp (not_not.mpr ?_)⟩
  · rintro ⟨-, f, relation, parts, hfound, hparts, hfresh⟩
    cases hfound
    cases hparts
    exact hfresh rfl
  · exact ⟨nofun, _, _, _, rfl, rfl, by decide⟩

open Sample in
/-- One call has two headings: the pet that cannot be inserted is a failed insert, and the pet that
cannot be taken a failed query; and so the pet that cannot be deleted, or looked up. -/
theorem headings_differ_within_call :
    (takePet ⟨[locked], []⟩).1 = .error ⟨.insert, .server "database is locked"⟩ ∧
    (takePet ⟨[.rows (Store.keyRow "id"), .rows (Store.keyRow "id"), locked], []⟩).1 =
      .error ⟨.query, .server "database is locked"⟩ ∧
    (leavePet ⟨[.rows (Store.keyRow "pet"), locked], []⟩).1 =
      .error ⟨.delete, .server "database is locked"⟩ ∧
    (leavePet ⟨[locked], []⟩).1 = .error ⟨.query, .server "database is locked"⟩ ∧
    (¬ ∃ category, ∀ r model owner field value,
      ReportsUnder (· = category) (Store.addRelation r model owner field value)) ∧
    ¬ ∃ category, ∀ r model owner field target,
      ReportsUnder (· = category) (Store.removeRelation r model owner field target) := by
  have hinsert : (takePet ⟨[locked], []⟩).1 = .error ⟨.insert, .server "database is locked"⟩ := by
    cbv
  have hset : (takePet ⟨[.rows (Store.keyRow "id"), .rows (Store.keyRow "id"), locked], []⟩).1 =
      .error ⟨.query, .server "database is locked"⟩ := by
    cbv
  have hdelete : (leavePet ⟨[.rows (Store.keyRow "pet"), locked], []⟩).1 =
      .error ⟨.delete, .server "database is locked"⟩ := by
    cbv
  have hread : (leavePet ⟨[locked], []⟩).1 = .error ⟨.query, .server "database is locked"⟩ := by
    cbv
  refine ⟨hinsert, hset, hdelete, hread, ?_, ?_⟩
  · rintro ⟨category, hone⟩
    have htake : ReportsUnder (· = category) takePet := hone _ _ _ _ _
    cases (htake.under_of_statement (by decide) hinsert).trans
      (htake.under_of_statement (by decide) hset).symm
  · rintro ⟨category, hone⟩
    have hleave : ReportsUnder (· = category) leavePet := hone _ _ _ _ _
    cases (hleave.under_of_statement (by decide) hdelete).trans
      (hleave.under_of_statement (by decide) hread).symm

end EntityStore
