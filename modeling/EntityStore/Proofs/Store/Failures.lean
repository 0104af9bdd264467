import EntityStore.Proofs.Json.Basic
import EntityStore.Proofs.Selection.Cleaning
import EntityStore.Proofs.Session.Failures
import EntityStore.Proofs.Store.Insert
import EntityStore.Store.Remove

/-!
Reading, writing and deleting fail fast. Failed reads are reported as queries and failed inserts as
inserts, until an operation around them puts them under its own heading. A delete goes on with what
belongs to its row whether or not that succeeds; it fails only before.
-/
namespace EntityStore.Store

open Run Category

variable {r : Registry} {under : Category → Prop}

section Refusals

variable {g : Failure}

theorem isRefusal_of_relationField {model field : String}
    (h : relationField r model field = .error g) : g.IsRefusal := by
  rcases bind_eq_error.mp h with hmodel | ⟨s, -, hfield⟩
  · exact Registry.isRefusal_of_require hmodel
  · split at hfield
    · cases hfield
      exact ⟨rfl, nofun⟩
    · split at hfield
      · cases hfield
        exact ⟨rfl, nofun⟩
      · cases hfield

theorem isRefusal_invalidRelated (field : String) : (invalidRelated field).IsRefusal :=
  ⟨rfl, nofun⟩

theorem isRefusal_of_relatedPart {relation : Relation} {key field : String} {v : Json}
    (h : relatedPart relation key field v = .error g) : g.IsRefusal := by
  have hinvalid : .error (invalidRelated field) = (.error g : Except Failure RelatedParts) →
      g.IsRefusal := by
    rintro ⟨⟩
    exact isRefusal_invalidRelated field
  unfold relatedPart at h
  split at h
  · cases h
  · split at h
    · split at h
      · cases h
      · split at h
        · cases h
        · exact hinvalid h
    · split at h
      · cases h
      · exact hinvalid h
  · split at h
    · cases h
    · exact hinvalid h

theorem isRefusal_of_relatedParts {relation : Relation} {key field : String} {items : List Json}
    (h : relatedParts relation key field items = .error g) : g.IsRefusal := by
  induction items with
  | nil => cases h
  | cons v rest ih =>
    rw [relatedParts] at h
    simp only [bind_eq_error, reduceCtorEq, and_false, exists_false, or_false] at h
    rcases h with hfirst | ⟨-, -, hrest⟩
    · exact isRefusal_of_relatedPart hfirst
    · exact ih hrest

end Refusals

section Reading

variable (hquery : under .query)

include hquery

theorem failsFast_fetchLinks (s : Schema) (f : Field) (relation : Relation) (fetch : RelationFetch)
    (keys : List Json) : FailsFast under (fetchLinks r s f relation fetch keys) := by
  unfold fetchLinks
  split
  · exact failsFast_pure _
  · refine failsFast_check_bind (fun _ => Registry.isRefusal_of_require) fun related _ => ?_
    exact (failsFast_send _ hquery).bind fun result => failsFast_pure _

theorem failsFast_fetchList (s : Schema) (f : Field) (keys : List Json) :
    FailsFast under (fetchList s f keys) := by
  unfold fetchList
  split
  · exact failsFast_pure _
  · exact (failsFast_send _ hquery).bind fun result => failsFast_pure _

theorem failsFast_attachments (s : Schema) (o : ReadOptions) (keys : List Json) :
    ∀ a ∈ attachments r s o keys, FailsFast under a.2 := by
  intro a ha
  rcases List.mem_append.mp ha with hlink | hlist
  · obtain ⟨fetch, -, hfetch⟩ := List.mem_filterMap.mp hlink
    obtain ⟨f, -, hread⟩ := Option.bind_eq_some_iff.mp hfetch
    split at hread
    · cases hread
      exact failsFast_fetchLinks hquery s f _ fetch keys
    · cases hread
  · obtain ⟨f, -, rfl⟩ := List.mem_map.mp hlist
    exact failsFast_fetchList hquery s f keys

omit hquery in
theorem failsFast_gather {reads : List (String × Run Gathered)}
    (h : ∀ a ∈ reads, FailsFast under a.2) : FailsFast under (gather reads) := by
  induction reads with
  | nil => exact failsFast_pure _
  | cons a rest ih =>
    have hrest := ih fun x hx => h x (List.mem_cons_of_mem _ hx)
    refine (h a (List.mem_cons_self ..)).bind fun gathered => ?_
    exact hrest.bind fun others => failsFast_pure _

theorem failsFast_complete (s : Schema) (o : ReadOptions) (rows : List Record) :
    FailsFast under (complete r s o rows) := by
  unfold complete
  dsimp only
  split
  · exact failsFast_pure _
  · refine (failsFast_gather ?_).bind fun gathered => failsFast_pure _
    exact failsFast_attachments hquery s o _

theorem failsFast_find (q : Query) : FailsFast under (find r q) := by
  refine FailsFast.within ?_ hquery
  refine failsFast_check_bind (fun _ => Query.isRefusal_of_selection) fun selection _ => ?_
  refine (failsFast_send _ reports_query).bind fun result => ?_
  refine failsFast_check_bind (fun _ => Registry.isRefusal_of_require) fun s _ => ?_
  exact failsFast_complete reports_query s _ _

theorem failsFast_findByKey (model : String) (id : Json) (options : ReadOptions) :
    FailsFast under (findByKey r model id options) :=
  failsFast_check_bind (fun _ => Registry.isRefusal_of_require) fun _ _ => failsFast_find hquery _

theorem failsFast_findByKeys (model : String) (keys : List Json) :
    FailsFast under (findByKeys r model keys) := by
  unfold findByKeys
  split
  · exact failsFast_pure _
  · exact failsFast_find hquery _

theorem failsFast_count (q : Query) : FailsFast under (count r q) := by
  refine FailsFast.within ?_ hquery
  refine failsFast_check_bind (fun _ => Query.isRefusal_of_selection) fun selection _ => ?_
  exact (failsFast_send _ reports_query).bind fun result => failsFast_pure _

theorem failsFast_matchingKeys (model : String) (condition : Condition) :
    FailsFast under (matchingKeys r model condition) := by
  refine failsFast_check_bind (fun _ => Registry.isRefusal_of_require) fun s _ => ?_
  refine failsFast_check_bind (fun _ => Query.isRefusal_of_selection) fun selection _ => ?_
  exact (failsFast_send _ hquery).bind fun result => failsFast_pure _

end Reading

section Writing

variable (hquery : under .query)

include hquery

theorem failsFast_setReference (model : String) (owner : Json) (field : String) (id : Json) :
    FailsFast under (setReference r model owner field id) :=
  (failsFast_send _ hquery).bind fun _ => failsFast_pure _

theorem failsFast_insertLinks (join : JoinTable) (owner : Json) (ids : List Json) :
    FailsFast under (insertLinks join owner ids) := by
  unfold insertLinks
  split
  · exact failsFast_pure _
  · exact (failsFast_send _ hquery).bind fun _ => failsFast_pure _

theorem failsFast_updateList (model : String) (owner : Json) (field : String) (values : Json) :
    FailsFast under (updateList model owner field values) := by
  refine (failsFast_send _ hquery).bind fun _ => ?_
  dsimp only
  split
  · exact failsFast_pure _
  · exact (failsFast_send _ hquery).bind fun _ => failsFast_pure _

theorem failsFast_writeLocalized (model : String) (id : Json) (entries : List Entry) :
    FailsFast under (writeLocalized r model id entries) := by
  refine (failsFast_send _ hquery).bind fun found => ?_
  exact (failsFast_send _ hquery).bind fun _ => failsFast_pure _

theorem failsFast_insertEmpty (model key : String) (n : Nat) :
    FailsFast under (insertEmpty model key n) := by
  induction n with
  | zero => exact failsFast_pure _
  | succ n ih =>
    refine (failsFast_send _ hquery).bind fun result => ?_
    exact ih.bind fun others => failsFast_pure _

theorem failsFast_ownedWrites (s : Schema) (id : Json) (value : Record) :
    ∀ m ∈ ownedWrites r s id value, FailsFast under m := by
  intro m hm
  rcases List.mem_append.mp hm with hlist | hlocalized
  · obtain ⟨e, -, rfl⟩ := List.mem_map.mp hlist
    exact failsFast_updateList hquery _ _ _ _
  · split at hlocalized
    · cases hlocalized
    · rw [List.mem_singleton.mp hlocalized]
      exact failsFast_writeLocalized hquery _ _ _

theorem failsFast_insertRow (s : Schema) (value : Record) :
    FailsFast under (insertRow s value) := by
  have hnoKey : ¬ Failure.OfServer ⟨.insert, .noKeyGenerated s.name⟩ := nofun
  refine (failsFast_send _ hquery).bind fun result => ?_
  split
  · exact failsFast_pure _
  · split
    · exact failsFast_fail hnoKey
    · exact failsFast_pure _
  · exact failsFast_fail hnoKey

omit hquery in
theorem failsFast_storedKey (relation : Relation) (key field : String) (rows : List Record) :
    FailsFast under (storedKey relation key field rows) := by
  unfold storedKey
  split
  · exact failsFast_pure _
  · exact failsFast_fail nofun

omit hquery in
theorem failsFast_insertAll (hinsert : under .insert) (model : String) (values : List Record) :
    FailsFast under (insertAll r model values) := by
  refine FailsFast.within ?_ hinsert
  refine failsFast_check_bind (fun _ => Registry.isRefusal_of_require) fun s _ => ?_
  split
  · exact failsFast_pure _
  · dsimp only
    split
    · exact (failsFast_insertEmpty reports_query _ _ _).bind fun keys =>
        failsFast_findByKeys reports_query _ keys
    · exact (failsFast_send _ reports_query).bind fun result =>
        failsFast_findByKeys reports_query _ _

end Writing

section Linking

variable (hquery : under .query) (hinsert : under .insert)

include hinsert in
theorem failsFast_relatedKeys (relation : Relation) (field : String) (value : Json) :
    FailsFast under (relatedKeys r relation field value) := by
  refine failsFast_check_bind (fun _ => isRefusal_of_relatedParts) fun parts _ => ?_
  split
  · exact failsFast_pure _
  · exact (failsFast_insertAll hinsert _ _).bind fun inserted => failsFast_pure _

include hquery hinsert

theorem failsFast_insertedLinks (relation : Relation) (field : String) (value : Json)
    (join : JoinTable) (owner : Json) : FailsFast under (do
      let ids ← relatedKeys r relation field value
      insertLinks join owner ids) :=
  (failsFast_relatedKeys hinsert relation field value).bind fun ids =>
    failsFast_insertLinks hquery join owner ids

/-- Any other value is a key, or an array of related values. -/
private theorem failsFast_link_plain {value : Json} (hnull : value ≠ .null)
    (hobj : ∀ members, value ≠ .obj members) (model : String) (owner : Json) (field : String) :
    FailsFast under (link r value model owner field) := by
  rw [link]
  · refine failsFast_check_bind (fun _ => isRefusal_of_relationField) fun found _ => ?_
    obtain ⟨f, relation⟩ := found
    dsimp only
    split
    · split
      · exact failsFast_setReference hquery _ _ _ _
      · exact failsFast_fail (isRefusal_invalidRelated f.name).ownWords
    · exact failsFast_insertedLinks hquery hinsert _ _ _ _ _
  · exact hnull
  · exact hobj

omit hquery in
/-- An insert fails as linking the values of the record does, under its own heading. -/
private theorem failsFast_insertMembers_of_links {value : List (String × Json)}
    (hvalues : ∀ m ∈ value, ∀ model owner field,
      FailsFast Category.Reports (link r m.2 model owner field))
    (model : String) : FailsFast under (insertMembers r value model) := by
  rw [insertMembers_eq]
  refine FailsFast.within ?_ hinsert
  refine failsFast_check_bind (fun _ => Registry.isRefusal_of_require) fun s _ => ?_
  refine (failsFast_insertRow reports_query s value).bind fun id => ?_
  refine (failsFast_inOrder ?_).bind fun _ => failsFast_findByKey reports_query model id {}
  intro m hm
  rcases List.mem_append.mp hm with hrelation | howned
  · obtain ⟨e, he, rfl⟩ := List.mem_map.mp hrelation
    have hmember := Record.mem_of_get? (Schema.get?_of_mem_entries (List.mem_of_mem_filter he))
    exact hvalues _ hmember _ id e.1.name
  · exact failsFast_ownedWrites reports_query s id value m howned

/-- Whatever is linked, however deeply it is nested. -/
theorem failsFast_link (value : Json) :
    ∀ model owner field, FailsFast under (link r value model owner field) := by
  induction value using Json.induction generalizing under with
  | null =>
    intro model owner field
    rw [link]
    exact failsFast_pure _
  | obj members ih =>
    intro model owner field
    -- what is inserted on the way is reported as an insert, whoever asks for it
    have hmembers : ∀ related, FailsFast under (insertMembers r members related) :=
      failsFast_insertMembers_of_links hinsert fun m hm => ih m hm reports_query reports_insert
    rw [link]
    refine failsFast_check_bind (fun _ => isRefusal_of_relationField) fun found _ => ?_
    obtain ⟨f, relation⟩ := found
    dsimp only
    split
    · refine failsFast_check_bind (fun _ => isRefusal_of_relatedPart) fun parts _ => ?_
      split
      · exact (failsFast_pure _).bind fun id => failsFast_setReference hquery _ _ _ id
      · refine (hmembers _).bind fun rows => ?_
        refine (failsFast_storedKey _ _ _ _).bind fun id => ?_
        exact failsFast_setReference hquery _ _ _ id
    · exact failsFast_insertedLinks hquery hinsert _ _ _ _ _
  | bool b => exact failsFast_link_plain hquery hinsert (by simp) (by simp)
  | num n => exact failsFast_link_plain hquery hinsert (by simp) (by simp)
  | str t => exact failsFast_link_plain hquery hinsert (by simp) (by simp)
  | arr items ih => exact failsFast_link_plain hquery hinsert (by simp) (by simp)

omit hquery in
theorem failsFast_insertMembers (value : List (String × Json)) (model : String) :
    FailsFast under (insertMembers r value model) :=
  failsFast_insertMembers_of_links hinsert
    (fun m _ => failsFast_link reports_query reports_insert m.2) model

theorem failsFast_replaceLinks (model : String) (owner : Json) (field : String) (value : Json) :
    FailsFast under (replaceLinks r model owner field value) := by
  refine failsFast_check_bind (fun _ => isRefusal_of_relationField) fun found _ => ?_
  obtain ⟨f, relation⟩ := found
  exact (failsFast_send _ hquery).bind fun _ => failsFast_link hquery hinsert value _ _ _

theorem failsFast_updatedRelation (model : String) (id : Json) (e : Entry) :
    FailsFast under (updatedRelation r model id e) := by
  unfold updatedRelation
  split
  · exact failsFast_replaceLinks hquery hinsert _ _ _ _
  · exact failsFast_link hquery hinsert _ _ _ _

end Linking

section Updating

variable (hupdate : under .update)

include hupdate

theorem failsFast_updateOne (model : String) (value : Record) :
    FailsFast under (updateOne r model value) := by
  refine FailsFast.within ?_ hupdate
  refine failsFast_check_bind (fun _ => Registry.isRefusal_of_require) fun s _ => ?_
  dsimp only
  split
  · exact failsFast_fail nofun
  · next id _ =>
    have hread := failsFast_findByKey (r := r) reports_query model id {}
    refine (failsFast_inOrder ?_).bind fun _ => ?_
    · intro m hm
      rcases List.mem_append.mp hm with hrelation | howned
      · obtain ⟨e, -, rfl⟩ := List.mem_map.mp hrelation
        exact failsFast_updatedRelation reports_query reports_insert model id e
      · exact failsFast_ownedWrites reports_query s id value m howned
    · split
      · exact hread
      · exact (failsFast_send _ reports_query).bind fun _ => hread

theorem failsFast_updateAll (model : String) (values : Record) (condition : Condition) :
    FailsFast under (updateAll r model values condition) := by
  refine FailsFast.within ?_ hupdate
  refine failsFast_check_bind (fun _ => Registry.isRefusal_of_require) fun s _ => ?_
  refine (failsFast_matchingKeys reports_query model condition).bind fun keys => ?_
  have hread := failsFast_findByKeys (r := r) reports_query model keys
  split
  · exact failsFast_pure _
  · dsimp only
    split
    · exact hread
    · exact (failsFast_send _ reports_query).bind fun _ => hread

theorem failsFast_increase (model : String) (id : Json) (field : String) (delta : Json) :
    FailsFast under (increase r model id field delta) := by
  refine FailsFast.within ?_ hupdate
  refine failsFast_check_bind (fun _ => Registry.isRefusal_of_require) fun s _ => ?_
  split
  · refine (failsFast_send _ reports_query).bind fun _ => ?_
    exact failsFast_findByKey reports_query model id {}
  · exact failsFast_fail nofun

end Updating

section Deleting

variable (hdelete : under .delete)

theorem failsFast_ownedReferences (hquery : under .query) (s : Schema) (id : Json) :
    FailsFast under (ownedReferences s id) := by
  unfold ownedReferences
  dsimp only
  split
  · exact failsFast_pure _
  · exact (failsFast_send _ hquery).bind fun result => failsFast_pure _

include hdelete

/-- A delete fails at the latest with the row itself. -/
theorem failsLast_deleteBy (delete : Delete) (model : String) (id : Json) :
    FailsLast under (deleteBy r delete model id) := by
  refine FailsLast.within ?_ hdelete
  refine failsLast_check_bind (fun _ => Registry.isRefusal_of_require) fun s _ => ?_
  refine (failsFast_ownedReferences reports_query s id).bind_failsLast fun owned => ?_
  refine (failsFast_send _ reports_query).bind_failsLast fun result => ?_
  refine failsLast_of_goesOn fun s' => ?_
  split
  · exact ⟨[], rfl⟩
  · refine ⟨[id], ?_⟩
    rw [bind_apply]
    have hcleanups := inOrder_ignoringFailure (cleanups r delete s id owned) s'
    rcases hrun : inOrder ((cleanups r delete s id owned).map ignoringFailure) s' with ⟨_, _⟩
    rw [hrun] at hcleanups
    cases hcleanups
    rfl

theorem failsLast_deleteOne (model : String) (id : Json) :
    FailsLast under (deleteOne r model id) :=
  fun s => failsLast_deleteBy hdelete (deleteWithin r s.replies.length) model id s

theorem failsFast_deleteAll (model : String) (condition : Condition) :
    FailsFast under (deleteAll r model condition) := by
  refine FailsFast.within ?_ hdelete
  refine failsFast_check_bind (fun _ => Registry.isRefusal_of_require) fun s _ => ?_
  refine (failsFast_matchingKeys reports_query model condition).bind fun keys => ?_
  split
  · exact failsFast_pure _
  · exact (failsFast_send _ reports_query).bind fun _ => failsFast_pure _

end Deleting

end EntityStore.Store
