import EntityStore.Proofs.Json.Basic
import EntityStore.Proofs.Session.Trace
import EntityStore.Proofs.Store.Cleanup
import EntityStore.Proofs.Store.KeyText
import EntityStore.Proofs.Store.Linking
import EntityStore.Proofs.Store.Read
import Mathlib.Data.List.Induction

/-!
What is attached to the rows of a query. Each many-to-many relation that the query fetches, and each
list that it selects, is read with one statement for all rows, and what is read is handed out by
the keys of the rows: a row gets what was read under its key, in the order of the reply.
-/
namespace EntityStore

open Run

def Session.resultAt (s : Session) (n : Nat) : RowSet :=
  match s.replies[n]?.getD (.rows {}) with
  | .rows result => result
  | .failure _ => {}

namespace Run

variable {s : Session}

theorem send_of_isRows (h : ∀ reply ∈ s.replies, reply.isRows = true) (c : Command) :
    send c s = (.ok (s.resultAt 0), s.after [c]) := by
  obtain ⟨_ | ⟨_ | _, rest⟩, sent⟩ := s
  · rfl
  · rfl
  · cases h _ (List.mem_cons_self ..)

theorem isRows_after (h : ∀ reply ∈ s.replies, reply.isRows = true) (cs : List Command) :
    ∀ reply ∈ (s.after cs).replies, reply.isRows = true :=
  fun reply hreply => h reply (List.mem_of_mem_drop hreply)

theorem resultAt_after (s : Session) (c : Command) (n : Nat) :
    (s.after [c]).resultAt n = s.resultAt (n + 1) := by
  simp only [Session.resultAt, Session.after, List.length_singleton, List.getElem?_drop,
    Nat.add_comm 1]

end Run

/-- What is read for rows under the name of a field: the statement for the keys of the rows, and for
a row of the reply the key that it belongs to and the element that it brings. -/
structure Attachment where
  field : String
  command : List Parameter → Command
  owner : Record → Json
  element : Record → Json

namespace Attachment

def ofLinks (r : Registry) (s : Schema) (f : Field) (relation : Relation) (fetch : RelationFetch)
    (related : Schema) : Attachment where
  field := f.name
  command owners := .links {
    join := JoinTable.of s.name f.name relation.model
    related := relation.model
    relatedKey := related.primaryKey
    columns := Store.linkColumns related fetch
    owners }
  owner row := (Store.takeColumn LinkSelection.ownerName row).1
  element row := (Store.linkedRow r related row).2

def ofList (s : Schema) (f : Field) : Attachment where
  field := f.name
  command owners := .elements (Schema.listTable s.name f.name) owners
  owner row := (Store.takeColumn Schema.listOwner row).1
  element row := (Store.listElement f.items row).2

def elementsFor (a : Attachment) (n : Int) (result : RowSet) : List Json :=
  (result.rows.filter fun row => (a.owner row).integer? == some n).map a.element

def gathered (a : Attachment) (result : RowSet) : Store.Gathered :=
  result.rows.map fun row => ((a.owner row).keyText, a.element row)

def read (a : Attachment) (keys : List Json) : Run Store.Gathered :=
  if keys.isEmpty then pure []
  else do
    let result ← Run.send (a.command (keys.map .ofId))
    pure (a.gathered result)

end Attachment

def Schema.linkAttachment? (r : Registry) (s : Schema) (fetch : RelationFetch) :
    Option Attachment := do
  let f ← s.field? fetch.name
  match f.kind with
  | .manyToMany relation =>
    (r.schema? relation.model).map (Attachment.ofLinks r s f relation fetch)
  | _ => none

/-- What is read for the rows of a query: the relations that it fetches and then its lists, which
are all lists of the model unless it names its fields. -/
def Schema.attached (r : Registry) (s : Schema) (o : ReadOptions) : List Attachment :=
  o.relations.filterMap (s.linkAttachment? r) ++
    (s.listFields.filter fun f => o.fields.isEmpty || o.fields.contains f.name).map
      (Attachment.ofList s)

namespace Store

variable {r : Registry} {s : Schema} {keys : List Json}

theorem fetchLinks_eq {f : Field} {relation : Relation} {fetch : RelationFetch} {related : Schema}
    (hrelated : r.schema? relation.model = some related) :
    fetchLinks r s f relation fetch keys =
      (Attachment.ofLinks r s f relation fetch related).read keys := by
  rw [fetchLinks, Registry.require_eq_ok.mpr hrelated]
  rfl

/-- Relations lead to models of the registry, so nothing that is fetched is left out. -/
theorem linkAttachment?_eq (hs : r.schema? s.name = some s) (fetch : RelationFetch)
    (keys : List Json) :
    (do
      let f ← s.field? fetch.name
      match f.kind with
      | .manyToMany relation => some (f.name, fetchLinks r s f relation fetch keys)
      | _ => none) = (s.linkAttachment? r fetch).map fun a => (a.field, a.read keys) := by
  unfold Schema.linkAttachment?
  cases hf : s.field? fetch.name with
  | none => rfl
  | some f =>
    cases hkind : f.kind with
    | manyToMany relation =>
      have hrelation : f.kind.relation? = some relation := by rw [hkind]; rfl
      obtain ⟨related, hrelated⟩ := exists_target (relationField_of_field? hs hf hrelation)
      simp only [Option.bind_eq_bind, Option.bind_some, hkind, hrelated, Option.map_some,
        fetchLinks_eq hrelated]
      rfl
    | oneToOne relation | oneToMany relation | scalar t | list t =>
      simp only [Option.bind_eq_bind, Option.bind_some, hkind, Option.map_none]

theorem attachments_eq (hs : r.schema? s.name = some s) (o : ReadOptions) (keys : List Json) :
    attachments r s o keys = (s.attached r o).map fun a => (a.field, a.read keys) := by
  unfold attachments Schema.attached
  rw [List.map_append, List.map_map, List.map_filterMap]
  refine congrArg₂ _ (List.filterMap_congr fun fetch _ => ?_) rfl
  exact linkAttachment?_eq hs fetch keys

section Gathering

variable {session : Session} {as : List Attachment}

theorem read_of_isEmpty (hkeys : keys.isEmpty = true) (a : Attachment) : a.read keys = pure [] :=
  if_pos hkeys

theorem gather_of_isEmpty (hkeys : keys.isEmpty = true) (as : List Attachment) :
    gather (as.map fun a => (a.field, a.read keys)) = pure (as.map fun a => (a.field, [])) := by
  induction as with
  | nil => rfl
  | cons a rest ih => rw [List.map_cons, gather, read_of_isEmpty hkeys, pure_bind, ih]; rfl

/-- Each attachment takes one reply. -/
theorem gather_read (hkeys : keys.isEmpty = false) (as : List Attachment)
    (hreplies : ∀ reply ∈ session.replies, reply.isRows = true) :
    gather (as.map fun a => (a.field, a.read keys)) session =
      (.ok (as.mapIdx fun n a => (a.field, a.gathered (session.resultAt n))),
        session.after (as.map fun a => a.command (keys.map .ofId)).reverse) := by
  induction as generalizing session with
  | nil => rfl
  | cons a rest ih =>
    have hread : a.read keys session = (.ok (a.gathered (session.resultAt 0)),
        session.after [a.command (keys.map .ofId)]) := by
      rw [Attachment.read, hkeys]
      exact bind_of_ok (send_of_isRows hreplies _)
    have hothers := ih (isRows_after hreplies [a.command (keys.map .ofId)])
    rw [List.map_cons, gather, bind_of_ok hread, bind_of_ok hothers, List.mapIdx_cons,
      List.map_cons, List.reverse_cons, Session.after_append]
    simp only [resultAt_after]
    rfl

end Gathering

section Attaching

variable {key name : String} {row : Record} {gathered : List (String × Gathered)}

def attachAll (key : String) (gathered : List (String × Gathered)) (row : Record) : Record :=
  gathered.foldl (fun full g => Record.set g.1 (.arr (elementsOf g.2 (Record.get? key row))) full)
    row

/-- What a row with the key gets under a name: of several parts with one name the last one. -/
def attachedItems (gathered : List (String × Gathered)) (key : Option Json) (name : String) :
    List Json :=
  match gathered.reverse.find? fun g => g.1 == name with
  | some g => elementsOf g.2 key
  | none => []

/-- Where no part takes the place of the key, the rows do not depend on each other. -/
theorem foldl_attach (hkey : ∀ g ∈ gathered, g.1 ≠ key) (rows : List Record) :
    gathered.foldl (fun rows g => attach key g.1 g.2 rows) rows =
      rows.map (attachAll key gathered) := by
  induction gathered generalizing rows with
  | nil => exact (List.map_id' rows).symm
  | cons g rest ih =>
    rw [List.foldl_cons, ih fun x hx => hkey x (List.mem_cons_of_mem _ hx), attach, List.map_map]
    refine List.map_congr_left fun row _ => ?_
    have hkept := Record.get?_set_of_ne (hkey g (List.mem_cons_self ..))
      (.arr (elementsOf g.2 (Record.get? key row))) row
    rw [Function.comp_apply, attachAll, attachAll, List.foldl_cons, hkept]

theorem get?_attachAll (key name : String) (gathered : List (String × Gathered)) (row : Record) :
    Record.get? name (attachAll key gathered row) =
      if name ∈ gathered.map Prod.fst then
        some (.arr (attachedItems gathered (Record.get? key row) name))
      else Record.get? name row := by
  induction gathered using List.reverseRecOn with
  | nil => rfl
  | append_singleton init g ih =>
    rw [attachAll, List.foldl_append, List.foldl_cons, List.foldl_nil]
    rw [attachAll] at ih
    rw [attachedItems, List.reverse_append, List.reverse_singleton, List.singleton_append,
      List.map_append, List.map_singleton]
    by_cases hname : g.1 = name
    · subst hname
      rw [Record.get?_set_self, List.find?_cons_of_pos (by simp)]
      exact (if_pos (List.mem_append_right _ (List.mem_singleton_self _))).symm
    · have hmem : name ∈ init.map Prod.fst ++ [g.1] ↔ name ∈ init.map Prod.fst := by
        rw [List.mem_append, List.mem_singleton, or_iff_left (Ne.symm hname)]
      rw [Record.get?_set_of_ne hname, List.find?_cons_of_neg (by simpa using hname), ih]
      simp only [hmem, attachedItems]

theorem attachedItems_of_last {before after : List (String × Gathered)} {g : String × Gathered}
    (h : ∀ x ∈ after, x.1 ≠ g.1) (key : Option Json) :
    attachedItems (before ++ g :: after) key g.1 = elementsOf g.2 key := by
  have hafter : after.reverse.find? (fun x => x.1 == g.1) = none :=
    List.find?_eq_none.mpr fun x hx => by simpa using h x (List.mem_reverse.mp hx)
  rw [attachedItems, List.reverse_append, List.reverse_cons, List.append_assoc, List.find?_append,
    hafter, Option.none_or, List.singleton_append, List.find?_cons_of_pos (by simp)]

/-- Under the key of a row stands what means the same integer. -/
theorem elementsOf_gathered (a : Attachment) (result : RowSet) {key : Json} {n : Int}
    (h : key.integer? = some n) :
    elementsOf (a.gathered result) (some key) = a.elementsFor n result := by
  rw [elementsOf, Attachment.gathered, Attachment.elementsFor, List.filter_map, List.map_map]
  refine congrArg (List.map a.element) (List.filter_congr fun row _ => ?_)
  rw [Function.comp_apply, Bool.eq_iff_iff, beq_iff_eq, beq_iff_eq]
  exact Json.keyText_eq_keyText_iff h

end Attaching

section Completing

variable {as : List Attachment} {o : ReadOptions} {session : Session}

theorem field_ne_key (hkey : ∀ f ∈ s.fields, f.isRelation = true ∨ f.isList = true →
    f.name ≠ s.primaryKey) : ∀ a ∈ s.attached r o, a.field ≠ s.primaryKey := by
  intro a ha
  rcases List.mem_append.mp ha with hlink | hlist
  · obtain ⟨fetch, -, hfetch⟩ := List.mem_filterMap.mp hlink
    obtain ⟨f, hf, hfound⟩ := Option.bind_eq_some_iff.mp hfetch
    split at hfound
    · next relation hkind =>
      obtain ⟨related, -, rfl⟩ := Option.map_eq_some_iff.mp hfound
      exact hkey f (Schema.field?_mem hf) (.inl (by rw [Field.isRelation, hkind]; rfl))
    · cases hfound
  · obtain ⟨f, hf, rfl⟩ := List.mem_map.mp hlist
    obtain ⟨hmem, hkind⟩ := List.mem_filter.mp (List.mem_of_mem_filter hf)
    exact hkey f hmem (.inr hkind)

def rowKeys (s : Schema) (rows : List Record) : List Json :=
  (rows.filterMap (Record.get? s.primaryKey)).filter fun k => !k.isNull

/-- Where there are no rows, nothing is read. -/
theorem complete_of_isEmpty {rows : List Record} (hrows : (rows.map (r.decodeRow s)).isEmpty = true)
    (o : ReadOptions) (session : Session) : complete r s o rows session = (.ok [], session) := by
  rw [complete]
  dsimp only
  rw [hrows]
  rfl

/-- What has been gathered is attached to all rows. -/
theorem complete_of_gather {rows : List Record} {gathered : List (String × Gathered)}
    {session' : Session} (hrows : (rows.map (r.decodeRow s)).isEmpty = false)
    (hgathered : gather (attachments r s o (rowKeys s (rows.map (r.decodeRow s)))) session =
      (.ok gathered, session'))
    (hfields : gathered.map Prod.fst = (s.attached r o).map Attachment.field)
    (hkey : ∀ a ∈ s.attached r o, a.field ≠ s.primaryKey) :
    complete r s o rows session =
      (.ok ((rows.map (r.decodeRow s)).map (attachAll s.primaryKey gathered)), session') := by
  have hnamed : ∀ g ∈ gathered, g.1 ≠ s.primaryKey := by
    intro g hg
    have hmem := List.mem_map_of_mem (f := Prod.fst) hg
    rw [hfields] at hmem
    obtain ⟨a, ha, hname⟩ := List.mem_map.mp hmem
    exact hname ▸ hkey a ha
  rw [complete]
  dsimp only
  rw [hrows]
  exact (bind_of_ok hgathered).trans (by rw [foldl_attach hnamed]; rfl)

/-- A row gets an array under the name of each attachment, which depends on its key alone, and
nothing else of it changes. -/
def Completes (s : Schema) (as : List Attachment) (items : Option Json → String → List Json)
    (row full : Record) : Prop :=
  ∀ name, Record.get? name full =
    if name ∈ as.map Attachment.field then
      some (.arr (items (Record.get? s.primaryKey row) name))
    else Record.get? name row

theorem completes_attachAll {gathered : List (String × Gathered)}
    (hfields : gathered.map Prod.fst = as.map Attachment.field) (rows : List Record) :
    List.Forall₂ (Completes s as (attachedItems gathered)) rows
      (rows.map (attachAll s.primaryKey gathered)) := by
  rw [List.forall₂_map_right_iff, List.forall₂_same]
  intro row _ name
  rw [get?_attachAll, hfields]

/-- What is gathered of the replies has the names of the attachments. -/
theorem map_fst_mapIdx (as : List Attachment) (session : Session) :
    (as.mapIdx fun n a => (a.field, a.gathered (session.resultAt n))).map Prod.fst =
      as.map Attachment.field := by
  refine List.ext_getElem? fun n => ?_
  rw [List.getElem?_map, List.getElem?_mapIdx, List.getElem?_map, Option.map_map]
  rfl

/-- The last attachment of a name counts, with the reply that it takes. -/
theorem attachedItems_mapIdx {before after : List Attachment} {a : Attachment}
    (has : as = before ++ a :: after) (hlast : ∀ b ∈ after, b.field ≠ a.field) {key : Json}
    {n : Int} (h : key.integer? = some n) :
    attachedItems (as.mapIdx fun n a => (a.field, a.gathered (session.resultAt n))) (some key)
      a.field = a.elementsFor n (session.resultAt before.length) := by
  subst has
  rw [List.mapIdx_append, List.mapIdx_cons, Nat.zero_add]
  refine (attachedItems_of_last ?_ _).trans (elementsOf_gathered a _ h)
  intro x hx
  obtain ⟨i, hi, rfl⟩ := List.mem_mapIdx.mp hx
  exact hlast _ (List.getElem_mem hi)

/-- What is gathered for keys, if there are any, costs one statement for each attachment. -/
theorem exists_gathered (hs : r.schema? s.name = some s) (o : ReadOptions) (keys : List Json)
    (hreplies : ∀ reply ∈ session.replies, reply.isRows = true) :
    ∃ gathered, (gather (attachments r s o keys) session).1 = .ok gathered ∧
      gathered.map Prod.fst = (s.attached r o).map Attachment.field ∧
      Issues (gather (attachments r s o keys)) session
        (if keys.isEmpty then [] else (s.attached r o).map fun a => a.command (keys.map .ofId)) ∧
      ∀ before a after key n, s.attached r o = before ++ a :: after →
        (∀ b ∈ after, b.field ≠ a.field) → key ∈ keys → key.integer? = some n →
        attachedItems gathered (some key) a.field =
          a.elementsFor n (session.resultAt before.length) := by
  rw [attachments_eq hs o keys]
  cases hempty : keys.isEmpty with
  | true =>
    rw [gather_of_isEmpty hempty]
    refine ⟨_, rfl, by rw [List.map_map]; rfl, issues_of_silent rfl, ?_⟩
    intro before a after key n _ _ hmem
    rw [List.isEmpty_iff.mp hempty] at hmem
    cases hmem
  | false =>
    have hgathered := gather_read hempty (s.attached r o) hreplies
    refine ⟨_, congrArg Prod.fst hgathered, map_fst_mapIdx _ session, ?_, ?_⟩
    · rw [Issues, hgathered]
      rfl
    · exact fun before a after key n has hlast _ hkey => attachedItems_mapIdx has hlast hkey

end Completing

end Store

open Store in
/-- The rows of a query are completed with one statement for each attachment, or with none where no
row has a key. The rows stay in their order, and each gets an array under the name of each
attachment: a row with an integer for a key gets what the reply brings for this integer, of several
attachments with one name that of the last one, and rows with one key get the same. -/
theorem complete_attaches (r : Registry) {s : Schema} (hs : r.schema? s.name = some s)
    (hkey : ∀ f ∈ s.fields, f.isRelation = true ∨ f.isList = true → f.name ≠ s.primaryKey)
    (o : ReadOptions) (rows : List Record) {session : Session}
    (hreplies : ∀ reply ∈ session.replies, reply.isRows = true) :
    let decoded := rows.map (r.decodeRow s)
    let keys := rowKeys s decoded
    ∃ completed items, (complete r s o rows session).1 = .ok completed ∧
      Issues (complete r s o rows) session
        (if keys.isEmpty then [] else (s.attached r o).map fun a => a.command (keys.map .ofId)) ∧
      List.Forall₂ (Completes s (s.attached r o) items) decoded completed ∧
      ∀ before a after key n, s.attached r o = before ++ a :: after →
        (∀ b ∈ after, b.field ≠ a.field) → key ∈ keys → key.integer? = some n →
        items (some key) a.field = a.elementsFor n (session.resultAt before.length) := by
  intro decoded keys
  cases hrows : decoded.isEmpty with
  | true =>
    have hnone : decoded = [] := List.isEmpty_iff.mp hrows
    have hkeys : keys = [] := by rw [show keys = rowKeys s decoded from rfl, hnone]; rfl
    have hrun := complete_of_isEmpty hrows o session
    refine ⟨[], fun _ _ => [], by rw [hrun], ?_, by rw [hnone]; exact .nil, ?_⟩
    · rw [hkeys]
      exact issues_of_silent (by rw [hrun])
    · intro before a after key n _ _ hmem
      rw [hkeys] at hmem
      cases hmem
  | false =>
    obtain ⟨gathered, hgathered, hfields, hissues, hitems⟩ := exists_gathered hs o keys hreplies
    have hrun := complete_of_gather hrows (Prod.ext hgathered rfl) hfields (field_ne_key hkey)
    refine ⟨_, _, congrArg Prod.fst hrun, ?_, completes_attachAll hfields decoded, hitems⟩
    rw [Issues, hrun]
    exact hissues

namespace Sample

def tripRows : List Record :=
  [[("id", .ofInt 1)], [("id", .str " 01")]]

def tripReplies : List Reply :=
  [.rows {}, .rows { rows := [[("fk", .str "1"), ("value", .str "Rome")],
    [("fk", .ofInt 2), ("value", .str "Oslo")]] }]

end Sample

open Store Sample in
/-- Both rows get the stop of the trip, and none of another one. -/
theorem complete_attaches_of_trip :
    ∃ completed items,
      (complete trips trip { relations := [{ name := "guides" }] } tripRows ⟨tripReplies, []⟩).1 =
        .ok completed ∧
      List.Forall₂
        (Completes trip (trip.attached trips { relations := [{ name := "guides" }] }) items)
        tripRows completed ∧
      items (some (.ofInt 1)) "stops" = [.str "Rome"] ∧
      items (some (.str " 01")) "stops" = [.str "Rome"] := by
  have hkey : ∀ f ∈ trip.fields, f.isRelation = true ∨ f.isList = true →
      f.name ≠ trip.primaryKey := by decide
  have hreplies : ∀ reply ∈ (⟨tripReplies, []⟩ : Session).replies, reply.isRows = true := by
    simp [tripReplies, Reply.isRows]
  obtain ⟨completed, items, hok, -, hrows, hitems⟩ := complete_attaches trips (s := trip) rfl hkey
    { relations := [{ name := "guides" }] } tripRows hreplies
  have hstops : ∀ key ∈ [Json.ofInt 1, .str " 01"], key.integer? = some 1 →
      items (some key) "stops" = [.str "Rome"] := fun key hmem hinteger =>
    hitems [_] (.ofList trip (.ofList "stops" .string)) [] key 1 rfl (by simp) hmem hinteger
  exact ⟨completed, items, hok, hrows, hstops _ (by simp) rfl, hstops _ (by simp) rfl⟩

end EntityStore
