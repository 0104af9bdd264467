import EntityStore.Proofs.Session.Trace
import EntityStore.Proofs.Storage.Columns
import EntityStore.Proofs.Store.Cleanup
import EntityStore.Proofs.Store.Reading
import EntityStore.Proofs.Store.Refusals

/-!
What is written for a row outside of its own columns: references, links, lists and localized values,
each under the key of the row. An object of a weak relation is inserted in front of its link, and
what belongs to the row of the object is written under the key of that row.
-/
namespace EntityStore

open Run

namespace Store

variable {r : Registry} {s : Schema} {key : Json} {session session' : Session}

section Linking

def referenceUpdate (s : Schema) (key : Json) (f : Field) (id : Json) : Command :=
  .update s.name [⟨f.name, .value (.ofId id)⟩] [.equals s.primaryKey (.ofId key)]

def linkInserts (join : JoinTable) (key : Json) (ids : List Json) : List Command :=
  if ids.isEmpty then []
  else [.insert join.name [join.owner, join.related] (ids.map fun id => [.ofId key, .ofId id]) none]

def linksDelete (join : JoinTable) (key : Json) : Command :=
  .delete join.name [.equals join.owner (.ofId key)]

/-- The commands link the value of an entry to the row with the key. Objects of a weak relation that
have no key are inserted in front of their links. -/
inductive Linked (r : Registry) (s : Schema) (key : Json) : Entry → List Command → Prop
  | null (f : Field) : Linked r s key (f, .null) []
  | reference {f : Field} {value id : Json} {relation : Relation}
      (hkind : f.kind.reference? = some relation) (hnull : value ≠ .null)
      (hid : relatedPart relation (r.primaryKey relation.model) f.name value =
        .ok { keys := [id] }) :
    Linked r s key (f, value) [referenceUpdate s key f id]
  | freshReference {f : Field} {members : Record} {relation : Relation} {nested : List Command}
      (hkind : f.kind.reference? = some relation) (hweak : relation.weak = true) {session : Session}
      (hnested : Issues (insertOne r relation.model members) session nested) (id : Json) :
    Linked r s key (f, .obj members) (nested ++ [referenceUpdate s key f id])
  | links {f : Field} {value : Json} {relation : Relation} {ids : List Json}
      (hkind : f.kind = .manyToMany relation) (hnull : value ≠ .null)
      (hids : relatedParts relation (r.primaryKey relation.model) f.name (linkedItems f value) =
        .ok { keys := ids }) :
    Linked r s key (f, value) (linkInserts (JoinTable.of s.name f.name relation.model) key ids)
  | freshLinks {f : Field} {value : Json} {relation : Relation} {ids : List Json}
      {fresh : List Record} {nested : List Command} (hkind : f.kind = .manyToMany relation)
      (hnull : value ≠ .null) (hweak : relation.weak = true)
      (hids : relatedParts relation (r.primaryKey relation.model) f.name (linkedItems f value) =
        .ok { keys := ids, fresh })
      {session : Session} (hnested : Issues (insertAll r relation.model fresh) session nested)
      (made : List Json) :
    Linked r s key (f, value)
      (nested ++ linkInserts (JoinTable.of s.name f.name relation.model) key (ids ++ made))

inductive Relinked (r : Registry) (s : Schema) (key : Json) : Entry → List Command → Prop
  | kept {e : Entry} {commands : List Command}
      (hkind : ∀ relation, e.1.kind ≠ .manyToMany relation) (h : Linked r s key e commands) :
    Relinked r s key e commands
  | replaced {e : Entry} {relation : Relation} {commands : List Command}
      (hkind : e.1.kind = .manyToMany relation) (h : Linked r s key e commands) :
    Relinked r s key e
      (linksDelete (JoinTable.of s.name e.1.name relation.model) key :: commands)

variable {relation : Relation} {f : Field} {value : Json} {parts : RelatedParts}

/-- A value that is let through has a key, or is an object for a weak relation. -/
theorem relatedPart_ok {related : String} (hnull : value ≠ .null)
    (h : relatedPart relation related field value = .ok parts) :
    (∃ id, parts = { keys := [id] }) ∨
      relation.weak = true ∧ ∃ members, value = .obj members ∧ parts = { fresh := [members] } := by
  unfold relatedPart at h
  split at h
  · exact absurd rfl hnull
  · next members =>
    split at h
    · next id _ =>
      split at h
      · cases h
        exact .inl ⟨id, rfl⟩
      · split at h
        · next hweak =>
          cases h
          exact .inr ⟨hweak, members, rfl, rfl⟩
        · cases h
    · split at h
      · next hweak =>
        cases h
        exact .inr ⟨hweak, members, rfl, rfl⟩
      · cases h
  · split at h
    · cases h
      exact .inl ⟨_, rfl⟩
    · cases h

theorem weak_of_fresh {related : String} {items : List Json}
    (h : relatedParts relation related field items = .ok parts) (hfresh : parts.fresh ≠ []) :
    relation.weak = true := by
  induction items generalizing parts with
  | nil =>
    cases h
    exact absurd rfl hfresh
  | cons value rest ih =>
    obtain ⟨first, hfirst, hothers⟩ := bind_eq_ok.mp h
    obtain ⟨others, hrest, hparts⟩ := bind_eq_ok.mp hothers
    cases hparts
    by_cases hnull : value = .null
    · subst hnull
      cases hfirst
      exact ih hrest hfresh
    · obtain ⟨id, rfl⟩ | ⟨hweak, -⟩ := relatedPart_ok hnull hfirst
      · exact ih hrest hfresh
      · exact hweak

theorem issues_freshKey (field : String) (members : Record) (session : Session) :
    ∃ nested, Issues (insertOne r relation.model members) session nested ∧
      Issues (freshKey r relation field (.obj members)) session nested := by
  obtain ⟨nested, hnested, -⟩ :=
    (sends_insertMembers r members relation.model).exists_issues session
  refine ⟨nested, hnested, hnested.bind_silent fun rows s' => ?_⟩
  unfold storedKey
  cases rows.head?.bind (Record.get? (r.primaryKey relation.model)) <;> rfl

/-- The keys for links cost nothing, or else the insert of the objects without keys. -/
theorem issues_relatedKeys {ids : List Json} (hlinks : ¬ f.isReference = true)
    (hok : (relatedKeys r relation f.name value session).1 = .ok ids) :
    let checked := relatedParts relation (r.primaryKey relation.model) f.name (linkedItems f value)
    (checked = .ok { keys := ids } ∧ Issues (relatedKeys r relation f.name value) session []) ∨
      relation.weak = true ∧ ∃ own fresh made nested, checked = .ok { keys := own, fresh } ∧
        ids = own ++ made ∧ Issues (insertAll r relation.model fresh) session nested ∧
        Issues (relatedKeys r relation f.name value) session nested := by
  rw [relatedKeys_of_links hlinks] at hok ⊢
  dsimp only at hok ⊢
  cases hparts :
    relatedParts relation (r.primaryKey relation.model) f.name (linkedItems f value) with
  | error g =>
    rw [hparts] at hok
    cases hok
  | ok parts =>
    obtain ⟨own, fresh⟩ := parts
    rw [hparts, ofExcept_ok_bind] at hok
    rw [ofExcept_ok_bind]
    by_cases hfresh : fresh = []
    · subst hfresh
      cases hok
      exact .inl ⟨rfl, issues_of_silent rfl⟩
    · have hsome : ¬ fresh.isEmpty = true := by simpa using hfresh
      rw [if_neg hsome] at hok ⊢
      obtain ⟨inserted, s', -, hids, -⟩ := bind_ok hok
      cases hids
      obtain ⟨nested, hnested, -⟩ :=
        (sends_insertAll (r := r) relation.model fresh).exists_issues session
      exact .inr ⟨weak_of_fresh hparts hfresh, own, fresh, _, nested, rfl, rfl, hnested,
        hnested.bind_silent fun _ _ => rfl⟩

theorem issues_insertLinks (join : JoinTable) (key : Json) (ids : List Json) (session : Session) :
    Issues (insertLinks join key ids) session (linkInserts join key ids) := by
  unfold insertLinks linkInserts
  split
  · exact issues_of_silent rfl
  · exact (issues_send _ session).bind_silent fun _ _ => rfl

theorem primaryKey_of_schema? (hs : r.schema? s.name = some s) :
    r.primaryKey s.name = s.primaryKey := by
  rw [Registry.primaryKey, hs]

theorem issues_setReference (hs : r.schema? s.name = some s) (key : Json) (f : Field) (id : Json)
    (session : Session) :
    Issues (setReference r s.name key f.name id) session [referenceUpdate s key f id] := by
  rw [referenceUpdate, ← primaryKey_of_schema? hs]
  exact (issues_send _ session).bind_silent fun _ _ => rfl

section Linked

variable (hs : r.schema? s.name = some s) (hfield : s.field? f.name = some f)

include hs hfield

theorem linked_of_reference (hkind : f.kind.reference? = some relation) (hnull : value ≠ .null)
    (hok : (link r value s.name key f.name session).1 = .ok ()) :
    ∃ commands, Issues (link r value s.name key f.name) session commands ∧
      Linked r s key (f, value) commands := by
  have hrelation := FieldKind.relation?_of_reference? hkind
  have hreference : f.isReference = true := by rw [Field.isReference, hkind, Option.isSome_some]
  have hfound := relationField_of_field? hs hfield hrelation
  cases hparts : relatedPart relation (r.primaryKey relation.model) f.name value with
  | error g =>
    rw [link_eq hnull, hfound, ofExcept_ok_bind, linkThrough] at hok
    dsimp only at hok
    rw [if_pos hreference, hparts] at hok
    cases hok
  | ok parts =>
    rw [link_of_reference hnull hfound hreference hparts] at hok ⊢
    -- a key is set as it is given, and an object is inserted for one
    obtain ⟨id, rfl⟩ | ⟨hweak, members, rfl, rfl⟩ := relatedPart_ok hnull hparts
    · exact ⟨_, issues_setReference hs key f id session, .reference hkind hnull hparts⟩
    · obtain ⟨nested, hnested, hissues⟩ := issues_freshKey f.name members session
      obtain ⟨id, s', hid, -⟩ := bind_ok hok
      have hset := issues_setReference hs key f id s'
      exact ⟨_, hissues.bind hid hset, .freshReference hkind hweak hnested id⟩

theorem linked_of_links (hkind : f.kind = .manyToMany relation) (hnull : value ≠ .null)
    (hok : (link r value s.name key f.name session).1 = .ok ()) :
    ∃ commands, Issues (link r value s.name key f.name) session commands ∧
      Linked r s key (f, value) commands := by
  have hrelation : f.kind.relation? = some relation := by rw [hkind]; rfl
  have hfound := relationField_of_field? hs hfield hrelation
  have hlinks : ¬ f.isReference = true := by simp [Field.isReference, hkind, FieldKind.reference?]
  rw [link_of_links hnull hfound hlinks] at hok ⊢
  obtain ⟨ids, s', hids, -⟩ := bind_ok hok
  have hlink := issues_insertLinks (JoinTable.of s.name f.name relation.model) key ids s'
  obtain ⟨hown, hsilent⟩ | ⟨hweak, own, fresh, made, nested, hown, rfl, hnested, hissues⟩ :=
    issues_relatedKeys hlinks (by rw [hids])
  · exact ⟨_, hsilent.bind hids hlink, .links hkind hnull hown⟩
  · exact ⟨_, hissues.bind hids hlink, .freshLinks hkind hnull hweak hown hnested made⟩

/-- A value is linked through the field that its name finds. -/
theorem linked_link (hrelation : f.isRelation = true)
    (hok : (link r value s.name key f.name session).1 = .ok ()) :
    ∃ commands, Issues (link r value s.name key f.name) session commands ∧
      Linked r s key (f, value) commands := by
  by_cases hnull : value = .null
  · subst hnull
    rw [link]
    exact ⟨[], issues_of_silent rfl, .null f⟩
  · cases hkind : f.kind with
    | oneToOne relation | oneToMany relation =>
      have hreference : f.kind.reference? = some relation := by rw [hkind]; rfl
      exact linked_of_reference hs hfield hreference hnull hok
    | manyToMany relation => exact linked_of_links hs hfield hkind hnull hok
    | scalar t | list t =>
      rw [Field.isRelation, hkind] at hrelation
      cases hrelation

theorem relinked_updatedRelation (hrelation : f.isRelation = true)
    (hok : (updatedRelation r s.name key (f, value) session).1 = .ok ()) :
    ∃ commands, Issues (updatedRelation r s.name key (f, value)) session commands ∧
      Relinked r s key (f, value) commands := by
  by_cases hlinks : ∃ relation, f.kind = .manyToMany relation
  · obtain ⟨relation, hkind⟩ := hlinks
    have hrelation' : f.kind.relation? = some relation := by rw [hkind]; rfl
    have hfound := relationField_of_field? hs hfield hrelation'
    have heq : updatedRelation r s.name key (f, value) = (do
        let _ ← send (linksDelete (JoinTable.of s.name f.name relation.model) key)
        link r value s.name key f.name) := by
      simp only [updatedRelation, hkind, replaceLinks, hfound, ofExcept_ok_bind]
      rfl
    rw [heq] at hok ⊢
    obtain ⟨result, s', hdelete, hlink, -⟩ := bind_ok hok
    obtain ⟨commands, hissues, hlinked⟩ := linked_link hs hfield hrelation hlink
    exact ⟨_, (issues_send _ _).bind hdelete hissues, .replaced hkind hlinked⟩
  · have hkind : ∀ relation, f.kind ≠ .manyToMany relation := fun relation h => hlinks ⟨relation, h⟩
    rw [updatedRelation_of_reference hkind] at hok ⊢
    obtain ⟨commands, hissues, hlinked⟩ := linked_link hs hfield hrelation hok
    exact ⟨commands, hissues, .kept hkind hlinked⟩

end Linked

end Linking

section Owned

def listDelete (s : Schema) (key : Json) (f : Field) : Command :=
  .delete (Schema.listTable s.name f.name) [.equals Schema.listOwner (.ofId key)]

/-- What puts the elements of an entry in the place of those that the list held. -/
def listWrites (s : Schema) (key : Json) (e : Entry) : List Command :=
  let items := storedElements e.2
  listDelete s key e.1 ::
    if items.isEmpty then []
    else [.insert (Schema.listTable s.name e.1.name) [Schema.listOwner, Schema.listValue]
      (items.map fun v => [.ofId key, .ofJson v]) none]

def localizedLookup (s : Schema) (key : Json) : Command :=
  .lookup [s.primaryKey] (Schema.localizedTable s.name) [.equals s.primaryKey (.ofId key)]

/-- The commands store the entries in the localized row of the key, if there are entries. -/
inductive Localized (s : Schema) (key : Json) (entries : List Entry) : List Command → Prop
  | none (h : entries = []) : Localized s key entries []
  | inserted (h : entries ≠ []) : Localized s key entries [localizedLookup s key,
      .insert (Schema.localizedTable s.name) (s.primaryKey :: entries.map fun e => e.1.name)
        [.ofId key :: entries.map fun e => e.1.parameter e.2] none]
  | updated (h : entries ≠ []) : Localized s key entries [localizedLookup s key,
      .update (Schema.localizedTable s.name) (assignments entries)
        [.equals s.primaryKey (.ofId key)]]

theorem issues_updateList {e : Entry}
    (hok : (updateList s.name key e.1.name e.2 session).1 = .ok ()) :
    Issues (updateList s.name key e.1.name e.2) session (listWrites s key e) := by
  obtain ⟨result, s', hdelete, -⟩ := bind_ok hok
  have hlist := issues_send (listDelete s key e.1) session
  unfold updateList listWrites
  dsimp only
  split
  · exact hlist.bind hdelete (issues_of_silent rfl)
  · exact hlist.bind hdelete ((issues_send _ s').bind_silent fun _ _ => rfl)

theorem localized_writeLocalized (hs : r.schema? s.name = some s) {entries : List Entry}
    (hne : entries ≠ []) (hok : (writeLocalized r s.name key entries session).1 = .ok ()) :
    ∃ commands, Issues (writeLocalized r s.name key entries) session commands ∧
      Localized s key entries commands := by
  unfold writeLocalized at hok ⊢
  rw [primaryKey_of_schema? hs] at hok ⊢
  obtain ⟨found, s', hfound, -⟩ := bind_ok hok
  have hlookup := issues_send (localizedLookup s key) session
  -- the row is changed if the look finds it, and made otherwise
  by_cases hempty : found.rows.isEmpty = true
  · refine ⟨_, hlookup.bind hfound ((issues_send _ s').bind_silent fun _ _ => rfl), ?_⟩
    rw [if_pos hempty]
    exact .inserted hne
  · refine ⟨_, hlookup.bind hfound ((issues_send _ s').bind_silent fun _ _ => rfl), ?_⟩
    rw [if_neg hempty]
    exact .updated hne

/-- The lists of a record come first, in the order of their fields. -/
theorem issues_ownedWrites (hs : r.schema? s.name = some s) {value : Record}
    (hok : (inOrder (ownedWrites r s key value) session).1 = .ok ()) :
    ∃ localized, Localized s key (s.localizedEntries value) localized ∧
      Issues (inOrder (ownedWrites r s key value)) session
        ((s.listEntries value).flatMap (listWrites s key) ++ localized) := by
  unfold ownedWrites at hok ⊢
  rw [inOrder_append] at hok ⊢
  obtain ⟨⟨⟩, s', hlists, hlocalized, -⟩ := bind_ok hok
  have hlist : ∀ e ∈ s.listEntries value, ∀ session,
      (updateList s.name key e.1.name e.2 session).1 = .ok () →
      Issues (updateList s.name key e.1.name e.2) session (listWrites s key e) :=
    fun _ _ _ => issues_updateList
  have hissues := issues_inOrder_flatMap hlist (by rw [hlists])
  split at hlocalized
  · next hempty =>
    refine ⟨[], .none (by simpa using hempty), hissues.bind hlists ?_⟩
    rw [if_pos hempty]
    exact issues_of_silent rfl
  · next hne =>
    obtain ⟨⟨⟩, s'', hrow, -⟩ := bind_ok hlocalized
    obtain ⟨commands, hcommands, hstored⟩ :=
      localized_writeLocalized hs (by simpa using hne) (by rw [hrow])
    refine ⟨commands, hstored, hissues.bind hlists ?_⟩
    rw [if_neg hne]
    exact hcommands.bind_silent fun _ _ => rfl

end Owned

section Row

/-- The commands write what a record gives for the row with the key outside of its columns. Each
entry of a relation is written by a part that is related to it. -/
def WrittenFor (related : Entry → List Command → Prop) (s : Schema) (key : Json) (value : Record)
    (commands : List Command) : Prop :=
  ∃ links localized, List.Forall₂ related (s.relationEntries value) links ∧
    Localized s key (s.localizedEntries value) localized ∧
    commands = links.flatten ++ (s.listEntries value).flatMap (listWrites s key) ++ localized

def rowInsert (s : Schema) (value : Record) : Command :=
  let entries := s.insertedEntries value
  if entries.isEmpty then .insertDefaults s.name s.primaryKey
  else .insert s.name (entries.map fun e => e.1.name)
    [entries.map fun e => e.1.parameter e.2] (some s.primaryKey)

def rowUpdates (s : Schema) (key : Json) (value : Record) : List Command :=
  let entries := s.assignedEntries value
  if entries.isEmpty then []
  else [.update s.name (assignments entries) [.equals s.primaryKey (.ofId key)]]

def ownKey? (s : Schema) (value : Record) : Option Json :=
  (Record.get? s.primaryKey value).filter fun v => !v.isNull

/-- The key of a row that has been inserted: the first that the server reports, or else the one that
the record brings. -/
def insertedKey? (s : Schema) (value : Record) (result : RowSet) : Option Json :=
  (result.insertedKeys s.primaryKey).head?.or (ownKey? s value)

def ReadBack (r : Registry) (s : Schema) (key : Json) (commands : List Command) : Prop :=
  (∀ c ∈ commands, c.IsRead) ∧ ∃ session, Issues (findByKey r s.name key {}) session commands

theorem exists_readBack (r : Registry) (s : Schema) (key : Json) (session : Session) :
    ∃ commands, Issues (findByKey r s.name key {}) session commands ∧
      ReadBack r s key commands := by
  obtain ⟨commands, hissues, hreads⟩ := (reads_findByKey r s.name key {}).exists_issues session
  exact ⟨commands, hissues, hreads, session, hissues⟩

theorem insertRow_eq (s : Schema) (value : Record) : insertRow s value = (do
    let result ← send (rowInsert s value)
    match insertedKey? s value result with
    | some id => pure id
    | none => Run.fail ⟨.insert, .noKeyGenerated s.name⟩) := by
  refine bind_congr fun result => ?_
  unfold insertedKey? ownKey?
  cases result.insertedKeys s.primaryKey with
  | cons id rest => rfl
  | nil =>
    cases Record.get? s.primaryKey value with
    | none => rfl
    | some id => cases hnull : id.isNull <;> simp [Option.filter, hnull]

theorem insertRow_ok {value : Record} (h : insertRow s value session = (.ok key, session')) :
    ∃ result, session.replies[0]?.getD (.rows {}) = .rows result ∧
      insertedKey? s value result = some key ∧ session' = session.after [rowInsert s value] := by
  rw [insertRow_eq] at h
  obtain ⟨result, s', hsent, hkey, heq⟩ := bind_ok (congrArg Prod.fst h)
  obtain ⟨hreply, rfl⟩ := send_ok hsent
  rw [heq] at h
  cases hinserted : insertedKey? s value result with
  | none =>
    rw [hinserted] at h
    cases h
  | some id =>
    rw [hinserted] at h
    cases h
    exact ⟨result, hreply, hinserted, rfl⟩

variable {value : Record} {related : Entry → List Command → Prop} {run : Entry → Run Unit}

/-- Relations come first, then what else the row owns. -/
theorem writtenFor_inOrder (hs : r.schema? s.name = some s)
    (hrelated : ∀ e ∈ s.relationEntries value, ∀ session, (run e session).1 = .ok () →
      ∃ part, Issues (run e) session part ∧ related e part)
    (hok : (inOrder ((s.relationEntries value).map run ++ ownedWrites r s key value) session).1 =
      .ok ()) :
    ∃ owned, WrittenFor related s key value owned ∧
      Issues (inOrder ((s.relationEntries value).map run ++ ownedWrites r s key value)) session
        owned := by
  rw [inOrder_append] at hok ⊢
  obtain ⟨⟨⟩, s', hlinks, howned, -⟩ := bind_ok hok
  obtain ⟨links, hissues, hparts⟩ := issues_inOrder hrelated (by rw [hlinks])
  obtain ⟨localized, hlocalized, hothers⟩ := issues_ownedWrites hs howned
  refine ⟨_, ⟨links, localized, hparts, hlocalized, rfl⟩, ?_⟩
  rw [List.append_assoc]
  exact hissues.bind hlinks hothers

/-- Relation entries name fields of the model. -/
theorem mem_relationEntries {e : Entry} (he : e ∈ s.relationEntries value) :
    e.1 ∈ s.fields ∧ e.1.isRelation = true := by
  obtain ⟨hentry, hrelation⟩ := List.mem_filter.mp he
  exact ⟨Schema.mem_entries_fields hentry, hrelation⟩

end Row

end Store

section Threaded

open Store

variable (r : Registry) {s : Schema} (hs : r.schema? s.name = some s) {value : Record}
  {session : Session} {rows : List Record}

include hs

/-- An insert that goes through, part for part, whatever is known of the parts that link. -/
theorem insertOne_parts {related : Json → Entry → List Command → Prop}
    (hrelated : ∀ key, ∀ e ∈ s.relationEntries value, ∀ session,
      (addRelation r s.name key e.1.name e.2 session).1 = .ok () →
      ∃ part, Issues (addRelation r s.name key e.1.name e.2) session part ∧ related key e part)
    (h : (insertOne r s.name value session).1 = .ok rows) :
    ∃ result key owned reads, session.replies[0]?.getD (.rows {}) = .rows result ∧
      insertedKey? s value result = some key ∧ WrittenFor (related key) s key value owned ∧
      ReadBack r s key reads ∧
      Issues (insertOne r s.name value) session (rowInsert s value :: (owned ++ reads)) := by
  unfold insertOne at h ⊢
  rw [insertMembers_eq, Registry.require_eq_ok.mpr hs, ofExcept_ok_bind] at h ⊢
  obtain ⟨key, s', hrow, hbelow, -⟩ := bind_ok (within_ok h)
  obtain ⟨result, hreply, hkey, rfl⟩ := insertRow_ok hrow
  obtain ⟨⟨⟩, s'', hwrites, -⟩ := bind_ok hbelow
  obtain ⟨owned, howned, hissues⟩ := writtenFor_inOrder hs (hrelated key) (by
    rw [← insertWrites, hwrites])
  obtain ⟨reads, hreads, hback⟩ := exists_readBack r s key s''
  refine ⟨result, key, owned, reads, hreply, hkey, howned, hback, issues_within.mpr ?_⟩
  have hinsert : Issues (insertRow s value) session [rowInsert s value] := by
    rw [Issues, hrow]
    rfl
  exact hinsert.bind hrow (hissues.bind hwrites hreads)

variable (hnames : (s.fields.map Field.name).Nodup)

include hnames

theorem insertOne_writtenFor (h : (insertOne r s.name value session).1 = .ok rows) :
    ∃ result key owned reads, session.replies[0]?.getD (.rows {}) = .rows result ∧
      insertedKey? s value result = some key ∧ WrittenFor (Linked r s key) s key value owned ∧
      ReadBack r s key reads ∧
      Issues (insertOne r s.name value) session (rowInsert s value :: (owned ++ reads)) := by
  refine insertOne_parts r hs (fun key e he session hok => ?_) h
  obtain ⟨hf, hrelation⟩ := mem_relationEntries he
  exact linked_link hs (Schema.field?_name_self hnames hf) hrelation hok

theorem updateOne_writtenFor (h : (updateOne r s.name value session).1 = .ok rows) :
    ∃ key owned reads, ownKey? s value = some key ∧
      WrittenFor (Relinked r s key) s key value owned ∧ ReadBack r s key reads ∧
      Issues (updateOne r s.name value) session (owned ++ (rowUpdates s key value ++ reads)) := by
  unfold updateOne at h ⊢
  rw [Registry.require_eq_ok.mpr hs, ofExcept_ok_bind] at h ⊢
  have hok := within_ok h
  dsimp only at hok ⊢
  rw [← ownKey?] at hok ⊢
  cases hkey : ownKey? s value with
  | none =>
    rw [hkey] at hok
    cases hok
  | some key =>
    rw [hkey] at hok
    obtain ⟨⟨⟩, s', hwrites, hbelow, -⟩ := bind_ok hok
    have hrelinked : ∀ e ∈ s.relationEntries value, ∀ session,
        (updatedRelation r s.name key e session).1 = .ok () →
        ∃ part, Issues (updatedRelation r s.name key e) session part ∧
          Relinked r s key e part := by
      intro e he session hok
      obtain ⟨hf, hrelation⟩ := mem_relationEntries he
      exact relinked_updatedRelation hs (Schema.field?_name_self hnames hf) hrelation hok
    obtain ⟨owned, howned, hissues⟩ := writtenFor_inOrder hs hrelinked (by rw [hwrites])
    -- a record that gives nothing but its key leaves the row alone
    by_cases hempty : (s.assignedEntries value).isEmpty = true
    · obtain ⟨reads, hreads, hback⟩ := exists_readBack r s key s'
      refine ⟨key, owned, reads, rfl, howned, hback, issues_within.mpr (hissues.bind hwrites ?_)⟩
      rw [if_pos hempty, rowUpdates, if_pos hempty]
      exact hreads
    · rw [if_neg hempty] at hbelow
      obtain ⟨result, s'', hrow, -⟩ := bind_ok hbelow
      obtain ⟨reads, hreads, hback⟩ := exists_readBack r s key s''
      refine ⟨key, owned, reads, rfl, howned, hback, issues_within.mpr (hissues.bind hwrites ?_)⟩
      rw [if_neg hempty, rowUpdates, if_neg hempty]
      exact (issues_send _ s').bind hrow hreads

end Threaded

open Store in
/-- What an insert or an update that goes through sends, from the first command to the last. What a
record gives outside of the columns of its row is written under one key: for an insert the key that
the row has got, for an update the key that the record brings. Each value of a relation costs one
part, each list one delete and at most one insert, and localized values, if there are any, a look at
their row and one write. Behind that nothing is written but, in an update, the row itself. -/
theorem writes_threaded_by_key (r : Registry) {s : Schema} (hs : r.schema? s.name = some s)
    (hnames : (s.fields.map Field.name).Nodup) (value : Record) (session : Session)
    (rows : List Record) :
    ((insertOne r s.name value session).1 = .ok rows →
      ∃ result key owned reads, session.replies[0]?.getD (.rows {}) = .rows result ∧
        insertedKey? s value result = some key ∧ WrittenFor (Linked r s key) s key value owned ∧
        ReadBack r s key reads ∧
        Issues (insertOne r s.name value) session (rowInsert s value :: (owned ++ reads))) ∧
    ((updateOne r s.name value session).1 = .ok rows →
      ∃ key owned reads, ownKey? s value = some key ∧
        WrittenFor (Relinked r s key) s key value owned ∧ ReadBack r s key reads ∧
        Issues (updateOne r s.name value) session (owned ++ (rowUpdates s key value ++ reads))) :=
  ⟨insertOne_writtenFor r hs hnames, updateOne_writtenFor r hs hnames⟩

namespace Sample

def tour : Record :=
  [("id", .ofInt 5), ("title", .str "Tour"), ("guides", .ofInt 3), ("stops", .str "Rome")]

end Sample

section Tour

open Store Sample

private theorem link_guide (id : Json) : link trips (.ofInt 3) "Trip" id "guides" = (do
    let ids ← relatedKeys trips ⟨"Guide", .manyToMany, false⟩ "guides" (.ofInt 3)
    insertLinks (JoinTable.of "Trip" "guides" "Guide") id ids) := by
  have hnull : Json.ofInt 3 ≠ .null := nofun
  have hfound : relationField trips "Trip" "guides" =
      .ok (.ofRelation "guides" "Guide" .manyToMany, ⟨"Guide", .manyToMany, false⟩) := rfl
  exact link_of_links hnull hfound (by decide) id

private theorem insertOne_tour : (insertOne trips "Trip" tour ⟨[], []⟩).1 = .ok [] := by
  have hwrites : ∀ id, insertWrites trips trip "Trip" id tour =
      link trips (.ofInt 3) "Trip" id "guides" :: ownedWrites trips trip id tour := fun _ => rfl
  rw [insertOne, insertMembers_eq, show trips.require "Trip" = .ok trip from rfl,
    ofExcept_ok_bind]
  simp only [hwrites, link_guide]
  rfl

private theorem updateOne_tour : (updateOne trips "Trip" tour ⟨[], []⟩).1 = .ok [] := by
  have hrelations : (trip.relationEntries tour).map (updatedRelation trips "Trip" (.ofInt 5)) = [do
      let _ ← send (linksDelete (JoinTable.of "Trip" "guides" "Guide") (.ofInt 5))
      link trips (.ofInt 3) "Trip" (.ofInt 5) "guides"] := rfl
  have hkey : (Record.get? trip.primaryKey tour).filter (fun v => !v.isNull) = some (.ofInt 5) :=
    rfl
  rw [updateOne, show trips.require "Trip" = .ok trip from rfl, ofExcept_ok_bind]
  dsimp only
  rw [hkey]
  dsimp only
  rw [hrelations, link_guide]
  rfl

end Tour

open Run Store Sample in
/-- The guide and the stop of the tour are written under its key. -/
theorem writes_threaded_by_key_of_tour :
    trips.schema? trip.name = some trip ∧ (trip.fields.map Field.name).Nodup ∧
    (insertOne trips trip.name tour ⟨[], []⟩).1 = .ok [] ∧
    (updateOne trips trip.name tour ⟨[], []⟩).1 = .ok [] ∧
    (∃ owned reads, WrittenFor (Linked trips trip (.ofInt 5)) trip (.ofInt 5) tour owned ∧
      Issues (insertOne trips trip.name tour) ⟨[], []⟩
        (rowInsert trip tour :: (owned ++ reads))) ∧
    ∃ owned reads, WrittenFor (Relinked trips trip (.ofInt 5)) trip (.ofInt 5) tour owned ∧
      Issues (updateOne trips trip.name tour) ⟨[], []⟩ (owned ++ reads) := by
  have hnames : (trip.fields.map Field.name).Nodup := by decide
  obtain ⟨hinsert, hupdate⟩ := writes_threaded_by_key trips rfl hnames tour ⟨[], []⟩ []
  obtain ⟨result, key, owned, reads, hreply, hkey, howned, -, hissues⟩ := hinsert insertOne_tour
  obtain ⟨key', owned', reads', hkey', howned', -, hissues'⟩ := hupdate updateOne_tour
  -- nothing is reported for the insert, so the key of the tour is its own in both
  cases hreply
  cases hkey
  cases hkey'
  exact ⟨rfl, hnames, insertOne_tour, updateOne_tour, ⟨owned, reads, howned, hissues⟩,
    owned', _, howned', hissues'⟩

end EntityStore
