import EntityStore.Proofs.Store.Comparand
import EntityStore.Proofs.Store.Rows

/-!
What becomes of an object that is given for a weak relation and has no key. For a reference it is
inserted with all that is given for it: scalars, relations, lists and localized values. For a table
of links all such objects are inserted by one statement, which holds the scalars of their own table
and nothing else of them.
-/
namespace EntityStore

open Run

theorem exists_of_forall₂ {α β : Type} {R : α → β → Prop} {xs : List α} {ys : List β}
    (h : List.Forall₂ R xs ys) {x : α} (hx : x ∈ xs) : ∃ y ∈ ys, R x y := by
  induction h with
  | nil => cases hx
  | cons hfirst _ ih =>
    rcases List.mem_cons.mp hx with rfl | hx
    · exact ⟨_, List.mem_cons_self .., hfirst⟩
    · obtain ⟨y, hy, hxy⟩ := ih hx
      exact ⟨y, List.mem_cons_of_mem _ hy, hxy⟩

namespace Store

variable {r : Registry} {t : Schema} {key : Json} {record : Record} {session : Session}

section One

/-- From some session on, the value of an entry is linked to the row with the key by these commands,
and that goes through. It is linked through the field of the entry, if its name finds this field. -/
def LinkedBy (r : Registry) (t : Schema) (key : Json) (e : Entry) (part : List Command) : Prop :=
  ∃ session, (addRelation r t.name key e.1.name e.2 session).1 = .ok () ∧
    Issues (addRelation r t.name key e.1.name e.2) session part ∧
    (t.field? e.1.name = some e.1 → Linked r t key e part)

/-- The commands write an entry of a record for the row with the key: a scalar into a cell of the
row that is inserted, or into a cell of the localized row, a list into rows of its table, and a
relation into the column or the rows that link it. Objects of a nested relation are created as it
is linked. -/
structure WritesEntry (r : Registry) (t : Schema) (key : Json) (record : Record)
    (commands : List Command) (e : Entry) : Prop where
  scalar : e.1.isScalar = true → e.1.isLocalized = false → rowInsert t record ∈ commands ∧
    (rowInsert t record).Stores t.name e.1.name (e.1.parameter e.2)
  localized : e.1.isLocalized = true → ∃ c ∈ commands,
    c.Stores (Schema.localizedTable t.name) e.1.name (e.1.parameter e.2)
  list : e.1.isList = true → listWrites t key e ⊆ commands
  relation : e.1.isRelation = true → ∃ part, part ⊆ commands ∧ Linked r t key e part ∧
    LinkedBy r t key e part

variable {f : Field} {v : Json}

theorem stores_rowInsert (hentry : (f, v) ∈ t.insertedEntries record) :
    (rowInsert t record).Stores t.name f.name (f.parameter v) := by
  rw [rowInsert, isEmpty_of_mem hentry]
  exact ⟨rfl, _, List.mem_singleton_self _, mem_zip_entries hentry⟩

theorem Localized.stores {entries : List Entry} {commands : List Command}
    (h : Localized t key entries commands) (hentry : (f, v) ∈ entries) :
    ∃ c ∈ commands, c.Stores (Schema.localizedTable t.name) f.name (f.parameter v) := by
  cases h with
  | none hnil =>
    rw [hnil] at hentry
    cases hentry
  | inserted =>
    exact ⟨_, List.mem_cons_of_mem _ (List.mem_singleton_self _), rfl, _,
      List.mem_singleton_self _, List.mem_cons_of_mem _ (mem_zip_entries hentry)⟩
  | updated =>
    exact ⟨_, List.mem_cons_of_mem _ (List.mem_singleton_self _), rfl, mem_assignments hentry⟩

theorem linkedBy_addRelation (hs : r.schema? t.name = some t) (key : Json) :
    ∀ e ∈ t.relationEntries record, ∀ session,
      (addRelation r t.name key e.1.name e.2 session).1 = .ok () →
      ∃ part, Issues (addRelation r t.name key e.1.name e.2) session part ∧
        LinkedBy r t key e part := by
  intro e he session hok
  obtain ⟨-, hrelation⟩ := mem_relationEntries he
  obtain ⟨part, hissues, -⟩ := (sends_link r e.2 t.name key e.1.name).exists_issues session
  refine ⟨part, hissues, session, hok, hissues, fun hfield => ?_⟩
  obtain ⟨linked, hlinks, hlinked⟩ := linked_link hs hfield hrelation hok
  rwa [hissues.unique hlinks]

/-- What is given for an object that is inserted by itself is written. -/
theorem insertOne_writesEntry (hs : r.schema? t.name = some t) {rows : List Record}
    (hok : (insertOne r t.name record session).1 = .ok rows) :
    ∃ key commands, Issues (insertOne r t.name record) session commands ∧
      ∀ f v, t.field? f.name = some f → Record.get? f.name record = some v → v ≠ .null →
        WritesEntry r t key record commands (f, v) := by
  obtain ⟨-, key, owned, reads, -, -, ⟨links, localized, hlinks, hlocalized, rfl⟩, -, hissues⟩ :=
    insertOne_parts r hs (linkedBy_addRelation hs) hok
  refine ⟨key, _, hissues, fun f v hfield hv hnull => ?_⟩
  have hf := Schema.field?_mem hfield
  have hentry : (f, v) ∈ t.entries record := Schema.mem_entries.mpr ⟨hf, hv⟩
  refine ⟨fun hscalar hown => ?_, fun hlocal => ?_, fun hlist => ?_, fun hrelation => ?_⟩
  · have hinserted : (f, v) ∈ t.insertedEntries record := by
      refine List.mem_filter.mpr ⟨mem_scalarEntries hf hscalar hown hv, ?_⟩
      cases v with
      | null => exact absurd rfl hnull
      | _ => simp [Json.isNull]
    exact ⟨List.mem_cons_self .., stores_rowInsert hinserted⟩
  · obtain ⟨c, hc, hstores⟩ := hlocalized.stores (mem_localizedEntries hf hlocal hv)
    refine ⟨c, ?_, hstores⟩
    simp [hc]
  · have hmem : (f, v) ∈ t.listEntries record := List.mem_filter.mpr ⟨hentry, hlist⟩
    intro c hc
    have hall : c ∈ (t.listEntries record).flatMap (listWrites t key) :=
      List.mem_flatMap.mpr ⟨_, hmem, hc⟩
    simp only [List.mem_cons, List.mem_append, hall, or_true, true_or]
  · have hmem : (f, v) ∈ t.relationEntries record := List.mem_filter.mpr ⟨hentry, hrelation⟩
    obtain ⟨part, hpart, hlinked⟩ := exists_of_forall₂ hlinks hmem
    have hnamed : Linked r t key (f, v) part := by
      obtain ⟨-, -, -, hnamed⟩ := hlinked
      exact hnamed hfield
    refine ⟨part, fun c hc => ?_, hnamed, hlinked⟩
    have hall : c ∈ links.flatten := List.mem_flatten.mpr ⟨part, hpart, hc⟩
    simp only [List.mem_cons, List.mem_append, hall, or_true, true_or]

end One

section Several

variable {values : List Record}

/-- The statements that insert several records: one with a row for each, or where no column is
filled one for each. -/
def allInserts (t : Schema) (values : List Record) : List Command :=
  let fields := filledFields t values
  if fields.isEmpty then List.replicate values.length (.insertDefaults t.name t.primaryKey)
  else [.insert t.name (fields.map Field.name) (values.map fun v => fields.map fun f => cell f v)
    (some t.primaryKey)]

theorem issues_insertEmpty {n : Nat} {model key : String} {keys : List Json}
    (hok : (insertEmpty model key n session).1 = .ok keys) :
    Issues (insertEmpty model key n) session (List.replicate n (.insertDefaults model key)) := by
  induction n generalizing session keys with
  | zero => exact issues_of_silent rfl
  | succ n ih =>
    obtain ⟨result, s', hfirst, hrest, -⟩ := bind_ok hok
    obtain ⟨others, s'', hothers, -⟩ := bind_ok hrest
    have hbehind := (ih (by rw [hothers])).bind_silent
      (f := fun others => pure (result.insertedKeys key ++ others)) fun _ _ => rfl
    exact (issues_send _ session).bind hfirst hbehind

theorem insertAll_writes (hs : r.schema? t.name = some t) (hne : values ≠ []) {rows : List Record}
    (hok : (insertAll r t.name values session).1 = .ok rows) :
    ∃ reads, Issues (insertAll r t.name values) session (allInserts t values ++ reads) ∧
      ∀ c ∈ reads, c.IsRead := by
  have hsome : ¬ values.isEmpty = true := by simpa using hne
  unfold insertAll at hok ⊢
  rw [Registry.require_eq_ok.mpr hs, ofExcept_ok_bind, if_neg hsome] at hok ⊢
  simp only [issues_within]
  replace hok := within_ok hok
  unfold allInserts
  dsimp only at hok ⊢
  split
  · next hempty =>
    rw [if_pos hempty] at hok
    obtain ⟨keys, s', hkeys, -⟩ := bind_ok hok
    exact (issues_insertEmpty (by rw [hkeys])).bind_sends fun keys => reads_findByKeys r t.name keys
  · exact (issues_send _ session).bind_sends fun result => reads_findByKeys r t.name _

/-- The columns that are stored are those that are filled. -/
theorem stores_allInserts_iff (hne : values ≠ []) {table column : String} :
    (∃ c ∈ allInserts t values, ∃ p, c.Stores table column p) ↔
      table = t.name ∧ ∃ f ∈ filledFields t values, f.name = column := by
  unfold allInserts
  dsimp only
  split
  · next hempty =>
    rw [List.isEmpty_iff.mp hempty]
    refine ⟨fun ⟨c, hc, p, hstores⟩ => ?_, fun ⟨_, f, hf, _⟩ => (List.not_mem_nil hf).elim⟩
    rw [List.eq_of_mem_replicate hc] at hstores
    exact hstores.elim
  · constructor
    · rintro ⟨c, hc, p, hstores⟩
      rw [List.mem_singleton.mp hc] at hstores
      obtain ⟨hname, row, hrow, hcell⟩ := hstores
      obtain ⟨record, -, rfl⟩ := List.mem_map.mp hrow
      rw [List.zip_map'] at hcell
      obtain ⟨f, hf, heq⟩ := List.mem_map.mp hcell
      exact ⟨hname.symm, f, hf, congrArg Prod.fst heq⟩
    · rintro ⟨rfl, f, hf, rfl⟩
      obtain ⟨record, hrecord⟩ := List.exists_mem_of_ne_nil values hne
      refine ⟨_, List.mem_singleton_self _, cell f record, rfl, _, List.mem_map_of_mem hrecord, ?_⟩
      rw [List.zip_map']
      exact List.mem_map_of_mem hf

theorem stores_allInserts (hrecord : record ∈ values) {f : Field}
    (hf : f ∈ filledFields t values) {v : Json} (hv : Record.get? f.name record = some v) :
    ∃ c ∈ allInserts t values, c.Stores t.name f.name (f.parameter v) := by
  have hcell : cell f record = f.parameter v := (fills_cell record f).given v hv
  have hsome : ¬ (filledFields t values).isEmpty = true := by
    rw [List.isEmpty_iff]
    exact List.ne_nil_of_mem hf
  rw [allInserts, if_neg hsome]
  refine ⟨_, List.mem_singleton_self _, rfl, _, List.mem_map_of_mem hrecord, ?_⟩
  rw [List.zip_map', ← hcell]
  exact List.mem_map_of_mem hf

end Several

section Linked

variable {model field : String} {f : Field} {relation : Relation} {owner value : Json}

def referenceSet (r : Registry) (model : String) (owner : Json) (f : Field) (id : Json) : Command :=
  .update model [⟨f.name, .value (.ofId id)⟩] [.equals (r.primaryKey model) (.ofId owner)]

theorem issues_referenceSet (r : Registry) (model : String) (owner : Json) (f : Field) (id : Json)
    (session : Session) :
    Issues (setReference r model owner f.name id) session [referenceSet r model owner f id] :=
  (issues_send _ session).bind_silent fun _ _ => rfl

variable (hfound : relationField r model field = .ok (f, relation))
  (ht : r.schema? relation.model = some t)
  (hok : (addRelation r model owner field value session).1 = .ok ())

include hfound ht hok

/-- The object is inserted by itself, and then the column is set. -/
theorem creation_through_reference (hreference : f.isReference = true)
    (hfresh : relatedPart relation t.primaryKey f.name value = .ok { fresh := [record] }) :
    ∃ key created id,
      Issues (addRelation r model owner field value) session
        (created ++ [referenceSet r model owner f id]) ∧
      ∀ g v, t.field? g.name = some g → Record.get? g.name record = some v → v ≠ .null →
        WritesEntry r t key record created (g, v) := by
  have hname : t.name = relation.model := Registry.schema?_name ht
  have hprimary : r.primaryKey relation.model = t.primaryKey := by rw [Registry.primaryKey, ht]
  have hnull : value ≠ .null := by
    rintro rfl
    cases hfresh
  obtain ⟨id, hkeys⟩ | ⟨-, members, rfl, hmembers⟩ := relatedPart_ok hnull hfresh
  · cases hkeys
  · cases hmembers
    rw [← hprimary] at hfresh
    unfold addRelation at hok ⊢
    rw [link_of_reference hnull hfound hreference hfresh] at hok ⊢
    obtain ⟨id, s', hid, -⟩ := bind_ok hok
    have hfreshKey : freshKey r relation f.name (.obj record) session = (.ok id, s') := hid
    obtain ⟨rows, s'', hrows, -⟩ := bind_ok (congrArg Prod.fst hfreshKey)
    have hinserted : (insertOne r t.name record session).1 = .ok rows := by
      rw [insertOne, hname, hrows]
    obtain ⟨key, created, hcreated, hwrites⟩ := insertOne_writesEntry (hname ▸ ht) hinserted
    obtain ⟨nested, hnested, hissues⟩ := issues_freshKey (r := r) f.name record session
    rw [← hname] at hnested
    obtain rfl := hnested.unique hcreated
    exact ⟨key, nested, id, hissues.bind hid (issues_referenceSet r model owner f id s'), hwrites⟩

/-- The objects are inserted by one statement, and then linked by the keys of the rows that are read
back. -/
theorem creation_through_links (hlinks : f.isReference = false) {own : List Json}
    {fresh : List Record} (hne : fresh ≠ [])
    (hfresh : relatedParts relation t.primaryKey f.name (linkedItems f value) =
      .ok { keys := own, fresh }) :
    ∃ rows reads, (insertAll r t.name fresh session).1 = .ok rows ∧
      Issues (addRelation r model owner field value) session
        (allInserts t fresh ++ reads ++
          linkInserts (JoinTable.of model f.name relation.model) owner
            (own ++ rows.filterMap (Record.get? t.primaryKey))) ∧
      ∀ c ∈ reads, c.IsRead := by
  have hname : t.name = relation.model := Registry.schema?_name ht
  have hprimary : r.primaryKey relation.model = t.primaryKey := by rw [Registry.primaryKey, ht]
  have hlinks : ¬ f.isReference = true := by simp [hlinks]
  have hnull : value ≠ .null := by
    rintro rfl
    cases hfresh
    exact hne rfl
  have hsome : ¬ fresh.isEmpty = true := by simpa using hne
  have hkeys : relatedKeys r relation f.name value = (do
      let inserted ← insertAll r t.name fresh
      pure (own ++ inserted.filterMap (Record.get? t.primaryKey))) := by
    rw [relatedKeys_of_links hlinks]
    dsimp only
    rw [hprimary, hfresh, ofExcept_ok_bind, if_neg hsome, ← hname]
  unfold addRelation at hok ⊢
  rw [link_of_links hnull hfound hlinks, hkeys] at hok ⊢
  obtain ⟨ids, s', hids, -⟩ := bind_ok hok
  obtain ⟨rows, s'', hrows, hmade, -⟩ := bind_ok (congrArg Prod.fst hids)
  cases hmade
  obtain ⟨reads, hissues, hreads⟩ := insertAll_writes (hname ▸ ht) hne (by rw [hrows])
  have hcreated := hissues.bind_silent
    (f := fun inserted => pure (own ++ inserted.filterMap (Record.get? t.primaryKey)))
    fun _ _ => rfl
  exact ⟨rows, reads, by rw [hrows], hcreated.bind hids (issues_insertLinks _ owner _ s'), hreads⟩

end Linked

end Store

open Store in
/-- What is written of objects without keys that are given for a weak relation, where the call goes
through. Given for a reference, every value of the object but null is written that a field of its
model takes. Given for a table of links, the objects together cost one statement, which stores what
they give for the scalars of the own table of their model, a key if each of them brings one. That is
all: relations, lists and localized values of the objects are left out. -/
theorem weak_creation_writes (r : Registry) {model field : String} {f : Field} {relation : Relation}
    {t : Schema} (hfound : relationField r model field = .ok (f, relation))
    (ht : r.schema? relation.model = some t) {owner value : Json} {session : Session}
    (hok : (addRelation r model owner field value session).1 = .ok ()) :
    (f.isReference = true → ∀ record,
      relatedPart relation t.primaryKey f.name value = .ok { fresh := [record] } →
      ∃ key created id,
        Issues (addRelation r model owner field value) session
          (created ++ [referenceSet r model owner f id]) ∧
        ∀ g v, t.field? g.name = some g → Record.get? g.name record = some v → v ≠ .null →
          WritesEntry r t key record created (g, v)) ∧
    (f.isReference = false → ∀ own fresh, fresh ≠ [] →
      relatedParts relation t.primaryKey f.name (linkedItems f value) =
        .ok { keys := own, fresh } →
      ∃ rows reads, (insertAll r t.name fresh session).1 = .ok rows ∧
        Issues (addRelation r model owner field value) session
          (allInserts t fresh ++ reads ++
            linkInserts (JoinTable.of model f.name relation.model) owner
              (own ++ rows.filterMap (Record.get? t.primaryKey))) ∧
        (∀ c ∈ reads, c.IsRead) ∧
        (∀ record ∈ fresh, ∀ g ∈ filledFields t fresh, ∀ v, Record.get? g.name record = some v →
          ∃ c ∈ allInserts t fresh, c.Stores t.name g.name (g.parameter v)) ∧
        ∀ table column, (∃ c ∈ allInserts t fresh, ∃ p, c.Stores table column p) ↔
          table = t.name ∧ ∃ g ∈ filledFields t fresh, g.name = column) := by
  refine ⟨fun hreference record hfresh => ?_, fun hlinks own fresh hne hfresh => ?_⟩
  · exact creation_through_reference hfound ht hok hreference hfresh
  · obtain ⟨rows, reads, hrows, hissues, hreads⟩ :=
      creation_through_links hfound ht hok hlinks hne hfresh
    refine ⟨rows, reads, hrows, hissues, hreads, ?_, fun table column => stores_allInserts_iff hne⟩
    exact fun record hrecord g hg v hv => stores_allInserts hrecord hg hv

namespace Sample

def track : Schema where
  name := "Track"
  fields := [{ name := "title", type := .string }, .ofList "moods" .string]

def single : Field :=
  (Field.ofRelation "single" "Track" .oneToOne).makeWeak

def tracks : Field :=
  (Field.ofRelation "tracks" "Track" .manyToMany).makeWeak

def albums : Registry := ⟨[{ name := "Album", fields := [single, tracks] }, track], rfl⟩

def song : Record :=
  [("title", .str "Ode"), ("moods", .arr [.str "calm"])]

def songRow : Reply :=
  .rows { rows := [[("id", .ofInt 5)]] }

def singleGiven : Run Unit :=
  Store.addRelation albums "Album" (.ofInt 1) "single" (.obj song)

/-- Its row and its moods are written before it is read back. -/
def singleReplies : Session :=
  ⟨[songRow, .rows {}, .rows {}, songRow], []⟩

def tracksGiven : Run Unit :=
  Store.addRelation albums "Album" (.ofInt 1) "tracks" (.obj song)

def tracksReplies : Session :=
  ⟨[songRow, songRow], []⟩

end Sample

section Song

open Store Sample

private theorem song_ne_null : Json.obj song ≠ .null :=
  nofun

private theorem singleGiven_found :
    relationField albums "Album" "single" = .ok (single, ⟨"Track", .oneToOne, true⟩) :=
  rfl

private theorem tracksGiven_found :
    relationField albums "Album" "tracks" = .ok (tracks, ⟨"Track", .manyToMany, true⟩) :=
  rfl

private theorem insertMembers_song : insertMembers albums song "Track" = within .insert (do
    let id ← insertRow track song
    inOrder [updateList "Track" id "moods" (.arr [.str "calm"])]
    findByKey albums "Track" id {}) := by
  have hwrites : ∀ id, insertWrites albums track "Track" id song =
      [updateList "Track" id "moods" (.arr [.str "calm"])] := fun _ => rfl
  rw [insertMembers_eq, show albums.require "Track" = .ok track from rfl, ofExcept_ok_bind]
  simp only [hwrites]

private theorem singleGiven_runs : (singleGiven singleReplies).1 = .ok () ∧
    ∃ selection, Issues singleGiven singleReplies
      [.insert "Track" ["title"] [[.text "Ode"]] (some "id"),
        .delete "TrackMoodsList" [.equals "fk" (.int 5)],
        .insert "TrackMoodsList" ["fk", "value"] [[.int 5, .text "calm"]] none,
        .select selection, .elements "TrackMoodsList" [.int 5],
        .update "Album" [⟨"single", .value (.int 5)⟩] [.equals "id" (.int 1)]] := by
  have hfresh : relatedPart ⟨"Track", .oneToOne, true⟩ "id" "single" (.obj song) =
      .ok { fresh := [song] } := rfl
  have hgiven : singleGiven = (do
      let id ← freshKey albums ⟨"Track", .oneToOne, true⟩ "single" (.obj song)
      setReference albums "Album" (.ofInt 1) "single" id) :=
    link_of_reference song_ne_null singleGiven_found rfl hfresh (.ofInt 1)
  rw [hgiven]
  simp only [freshKey, insertMembers_song]
  exact ⟨rfl, _, rfl⟩

private theorem tracksGiven_runs : (tracksGiven tracksReplies).1 = .ok () ∧
    ∃ selection, Issues tracksGiven tracksReplies
      [.insert "Track" ["title"] [[.text "Ode"]] (some "id"),
        .select selection, .elements "TrackMoodsList" [.int 5],
        .insert "AlbumHasTracks" ["album", "track"] [[.int 1, .int 5]] none] := by
  rw [tracksGiven, addRelation, link_of_links song_ne_null tracksGiven_found (by decide)]
  exact ⟨rfl, _, rfl⟩

/-- The moods of the song are stored with it where it becomes the single. Where it becomes one of
the tracks, its title is. -/
theorem weak_creation_writes_of_song :
    (∃ key created id,
      Issues singleGiven singleReplies
        (created ++ [referenceSet albums "Album" (.ofInt 1) single id]) ∧
      listWrites track key (.ofList "moods" .string, .arr [.str "calm"]) ⊆ created) ∧
    ∃ (rows : List Record) (reads : List Command),
      Issues tracksGiven tracksReplies
        (allInserts track [song] ++ reads ++
          linkInserts ⟨"AlbumHasTracks", "album", "track"⟩ (.ofInt 1)
            (rows.filterMap (Record.get? "id"))) ∧
      ∃ c ∈ allInserts track [song], c.Stores "Track" "title" (.text "Ode") := by
  have htrack : albums.schema? "Track" = some track := rfl
  obtain ⟨hsingle, -⟩ := weak_creation_writes albums singleGiven_found htrack singleGiven_runs.1
  obtain ⟨-, htracks⟩ := weak_creation_writes albums tracksGiven_found htrack tracksGiven_runs.1
  obtain ⟨key, created, id, hissues, hwrites⟩ := hsingle rfl song rfl
  obtain ⟨rows, reads, -, hissues', -, hstores, -⟩ := htracks rfl [] [song] nofun rfl
  have hmoods := hwrites (.ofList "moods" .string) (.arr [.str "calm"]) rfl rfl nofun
  have htitle := hstores song (List.mem_singleton_self _) { name := "title", type := .string }
    (List.mem_singleton_self _) (.str "Ode") rfl
  exact ⟨⟨key, created, id, hissues, hmoods.list rfl⟩, rows, reads, hissues', htitle⟩

/-- The moods of a song are lost that becomes one of the tracks: nothing is written to their table,
although the call goes through. They are stored if it becomes the single. -/
theorem creation_through_links_drops_list :
    Record.get? "moods" song = some (.arr [.str "calm"]) ∧
    (∃ f ∈ track.fields, f.name = "moods" ∧ f.isList = true) ∧
    (tracksGiven tracksReplies).1 = .ok () ∧
    (∃ commands, Issues tracksGiven tracksReplies commands ∧
      ∀ c ∈ commands, ∀ column p, ¬ c.Stores "TrackMoodsList" column p) ∧
    (singleGiven singleReplies).1 = .ok () ∧
    ∃ commands, Issues singleGiven singleReplies commands ∧
      ∃ c ∈ commands, c.Stores "TrackMoodsList" "value" (.text "calm") := by
  obtain ⟨hok, selection, hissues⟩ := tracksGiven_runs
  obtain ⟨hok', selection', hissues'⟩ := singleGiven_runs
  refine ⟨rfl, by decide, hok, ⟨_, hissues, ?_⟩, hok', _, hissues', ?_⟩
  · simp [Command.Stores]
  · simp [Command.Stores]

end Song

end EntityStore
