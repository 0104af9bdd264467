import EntityStore.Proofs.Store.Write
import EntityStore.Store.Remove

/-!
Deleting sends admitted commands. A delete is given the delete to which it spreads, so the induction
is on how far it may spread.
-/
namespace EntityStore.Store

open Run

variable {r : Registry} {delete : Delete}

theorem sends_currentReference {model : String} {s : Schema} (hs : r.schema? model = some s)
    (owner : Json) {field : String} (hfield : r.Holds model field) :
    Sends r.Admits (currentReference r model owner field) := by
  have hkey := Registry.holds_primaryKey hs
  refine (sends_send (.lookup ⟨⟨_, hkey⟩, ?_⟩)).bind fun _ => sends_pure _
  simp [RowMatch.column, hfield, hkey]

theorem sends_linkedKeys {join : JoinTable} (h : r.HoldsAll join.name [join.owner, join.related])
    (owner : Json) (among : Option (List Json)) :
    Sends r.Admits (linkedKeys join owner among) := by
  have howner := h.holds join.owner (List.mem_cons_self ..)
  have hrelated := h.holds join.related (by simp)
  refine (sends_send (.lookup ⟨⟨_, howner⟩, ?_⟩)).bind fun _ => sends_pure _
  cases among <;> simp [RowMatch.column, howner, hrelated]

theorem sends_deleteAllOf {P : Command → Prop} (hdelete : ∀ model id, Sends P (delete model id))
    (model : String) (ids : List Json) : Sends P (deleteAllOf delete model ids) := by
  induction ids with
  | nil => exact sends_pure _
  | cons id rest ih => exact (hdelete model id).bind fun _ => ih

/-- The row of a weak relation is deleted first, if there is one. -/
private theorem sends_spread {P : Command → Prop} (hdelete : ∀ model id, Sends P (delete model id))
    {after : Run Unit} (hafter : Sends P after) (model : String) (current : Option Json) :
    Sends P (match current with
      | some id => if id.isKey then do let _ ← delete model id; after else after
      | none => after) := by
  split
  · split
    · exact (hdelete _ _).bind fun _ => hafter
    · exact hafter
  · exact hafter

theorem sends_clearReference (hdelete : ∀ model id, Sends r.Admits (delete model id))
    {model : String} {s : Schema} (hs : r.schema? model = some s) (owner : Json) {f : Field}
    (hfield : r.Holds model f.name) (relation : Relation) (target : RelationTarget) :
    Sends r.Admits (clearReference r delete model owner f relation target) := by
  have hclear : Sends r.Admits (do
      let _ ← Run.send <| .update model [⟨f.name, .zero⟩]
        [.equals (r.primaryKey model) (.ofId owner)]
      pure ()) := by
    refine (sends_send ?_).bind fun _ => sends_pure _
    exact .updateRow (Registry.holds_primaryKey hs) (List.forall_mem_singleton.mpr hfield)
  unfold clearReference
  dsimp only
  split
  · split
    · exact (sends_pure _).bind fun current => sends_spread hdelete hclear _ current
    · exact (sends_currentReference hs _ hfield).bind fun current =>
        sends_spread hdelete hclear _ current
  · exact hclear

variable (r) in
theorem sends_targetKeys (relation : Relation) (target : RelationTarget) :
    Sends r.Admits (targetKeys r relation target) := by
  cases target with
  | all => exact sends_pure _
  | keys ids => exact sends_pure _
  | matching condition =>
    refine sends_ofExcept_bind fun selection hselection => ?_
    exact (sends_send (.select hselection)).bind fun result => sends_pure _

theorem sends_removeLinks (hdelete : ∀ model id, Sends r.Admits (delete model id)) {model : String}
    (owner : Json) {f : Field} {relation : Relation}
    (hjoin : r.HoldsAll (JoinTable.of model f.name relation.model).name
      [(JoinTable.of model f.name relation.model).owner,
        (JoinTable.of model f.name relation.model).related]) (target : RelationTarget) :
    Sends r.Admits (removeLinks r delete model owner f relation target) := by
  refine (sends_targetKeys r relation target).bind fun among => ?_
  split
  · exact sends_pure _
  · refine (sends_linkedKeys hjoin owner among).bind fun linked => ?_
    split
    · exact sends_pure _
    · refine (sends_send (.delete hjoin)).bind fun _ => ?_
      split
      · exact sends_deleteAllOf hdelete _ linked
      · exact sends_pure _

theorem sends_removeRelationBy (hdelete : ∀ model id, Sends r.Admits (delete model id))
    (model : String) (owner : Json) (field : String) (target : RelationTarget) :
    Sends r.Admits (removeRelationBy r delete model owner field target) := by
  refine sends_ofExcept_bind fun found hfound => ?_
  obtain ⟨f, relation⟩ := found
  obtain ⟨s, hs, hf, -, hrelation⟩ := relationField_eq_ok hfound
  dsimp only
  split
  · next hreference =>
    have hfield := Registry.holds_reference (Registry.schema?_mem hs) hf hreference
    rw [Registry.schema?_name hs] at hfield
    exact sends_clearReference hdelete hs owner hfield relation target
  · next hno =>
    have hjoin := holds_join hs hf (kind_of_not_isReference hrelation hno)
    exact sends_removeLinks hdelete owner hjoin target

/-- A weak field holds the key of a row of another model. -/
theorem isReference_of_weak {s : Schema} {f : Field} (h : f ∈ weakFields s) :
    f ∈ s.fields ∧ f.isReference = true := by
  obtain ⟨hf, hweak⟩ := List.mem_filter.mp h
  refine ⟨hf, ?_⟩
  unfold Field.isReference
  split at hweak
  · next hreference =>
    rw [hreference]
    rfl
  · cases hweak

theorem sends_ownedReferences {s : Schema} (hs : s ∈ r.schemas) (id : Json) :
    Sends r.Admits (ownedReferences s id) := by
  unfold ownedReferences
  dsimp only
  split
  · exact sends_pure _
  · have hkey := Registry.Holds.key hs
    refine (sends_send (.lookup ⟨⟨_, hkey⟩, ?_⟩)).bind fun result => sends_pure _
    refine List.forall_mem_append.mpr ⟨?_, List.forall_mem_singleton.mpr hkey⟩
    intro column hcolumn
    obtain ⟨f, hf, rfl⟩ := List.mem_map.mp hcolumn
    obtain ⟨hmem, hreference⟩ := isReference_of_weak hf
    exact Registry.holds_reference hs hmem hreference

theorem sends_deleteOwned {table column : String} (h : r.Holds table column) (id : Json) :
    Sends r.Admits (deleteOwned table column id) :=
  (sends_send (.deleteRow h)).bind fun _ => sends_pure _

theorem sends_relationCleanup (hdelete : ∀ model id, Sends r.Admits (delete model id)) (s : Schema)
    (id : Json) (owned : Record) (f : Field) (m : Run Unit)
    (hm : relationCleanup r delete s id owned f = some m) : Sends r.Admits m := by
  unfold relationCleanup at hm
  split at hm
  case h_1 =>
    cases hm
    exact sends_removeRelationBy hdelete _ _ _ _
  case h_4 | h_5 => cases hm
  all_goals
    split at hm
    · split at hm
      · cases hm
        exact sends_removeRelationBy hdelete _ _ _ _
      · cases hm
    · cases hm

theorem sends_cleanups (hdelete : ∀ model id, Sends r.Admits (delete model id)) {s : Schema}
    (hs : s ∈ r.schemas) (id : Json) (owned : Record) :
    ∀ m ∈ cleanups r delete s id owned, Sends r.Admits m := by
  intro m hm
  unfold cleanups at hm
  rcases List.mem_append.mp hm with hrelations | hlocalized
  · rcases List.mem_append.mp hrelations with hrelation | hlist
    · obtain ⟨f, -, hf⟩ := List.mem_filterMap.mp hrelation
      exact sends_relationCleanup hdelete s id owned f m hf
    · obtain ⟨f, hf, rfl⟩ := List.mem_map.mp hlist
      obtain ⟨hmem, hkind⟩ := List.mem_filter.mp hf
      exact sends_deleteOwned (Registry.holds_list hs hmem hkind).1 id
  · split at hlocalized
    · cases hlocalized
    · next hne =>
      rw [List.mem_singleton.mp hlocalized]
      obtain ⟨f, rest, hfields⟩ :=
        List.exists_cons_of_ne_nil (l := s.localizedFields) (by simpa using hne)
      exact sends_deleteOwned (.localizedKey hs (hfields ▸ List.mem_cons_self ..)) id

/-- A delete sends what the deletes that it spreads to send. -/
theorem sends_deleteBy (hdelete : ∀ model id, Sends r.Admits (delete model id)) (model : String)
    (id : Json) : Sends r.Admits (deleteBy r delete model id) := by
  refine Sends.within ?_ .delete
  refine sends_ofExcept_bind fun s hrequired => ?_
  obtain ⟨hs, rfl⟩ := Registry.require_named hrequired
  have hmem := Registry.schema?_mem hs
  have hkey := Registry.Holds.key hmem
  refine (sends_ownedReferences hmem id).bind fun owned => ?_
  refine (sends_send (.deleteRow hkey)).bind fun result => ?_
  split
  · exact sends_pure _
  · refine (sends_inOrder ?_).bind fun _ => sends_pure _
    intro m hm
    obtain ⟨cleanup, hcleanup, rfl⟩ := List.mem_map.mp hm
    exact (sends_cleanups hdelete hmem id owned cleanup hcleanup).ignoringFailure

variable (r)

theorem sends_deleteWithin (budget : Nat) : ∀ model id,
    Sends r.Admits (deleteWithin r budget model id) := by
  induction budget with
  | zero => exact fun _ _ => sends_pure _
  | succ budget ih => exact sends_deleteBy ih

theorem sends_deleteOne (model : String) (id : Json) : Sends r.Admits (deleteOne r model id) :=
  sends_get.bind fun _ => sends_deleteWithin r _ model id

theorem sends_removeRelation (model : String) (owner : Json) (field : String)
    (target : RelationTarget) : Sends r.Admits (removeRelation r model owner field target) :=
  sends_removeRelationBy (sends_deleteOne r) model owner field target

theorem sends_deleteAll (model : String) (condition : Condition) :
    Sends r.Admits (deleteAll r model condition) := by
  refine Sends.within ?_ .delete
  refine sends_ofExcept_bind fun s hrequired => ?_
  obtain ⟨hs, rfl⟩ := Registry.require_named hrequired
  have hkey := Registry.Holds.key (Registry.schema?_mem hs)
  refine (sends_matchingKeys r _ condition).bind fun keys => ?_
  split
  · exact sends_pure _
  · exact (sends_send (.deleteRow hkey)).bind fun _ => sends_pure _

end EntityStore.Store
