import EntityStore.Proofs.Store.Linking

/-!
What has been written when a store refuses an operation. Models, keys and fields are checked before
anything is sent; the values of relations are checked when they are linked, one after the other, and
what was written until then stays written.
-/
namespace EntityStore

namespace Store

open Run

variable {r : Registry}

section Updating

variable {model : String} {g : Failure}

/-- What an update checks of the values that it links before it has sent anything: null leaves a
reference as it is, and links are taken away before their values are checked, so this is the first
value of a reference that is not null, if no links come before it. -/
def firstLinkCheck (r : Registry) (model : String) : List Entry → Except Failure Unit
  | [] => .ok ()
  | e :: rest =>
    match e.1.kind, e.2 with
    | .manyToMany _, _ => .ok ()
    | _, .null => firstLinkCheck r model rest
    | _, value => linkCheck r model e.1.name value

def updateCheck (r : Registry) (model : String) (value : Record) : Except Failure Unit := do
  let s ← r.require model
  match (Record.get? s.primaryKey value).filter fun v => !v.isNull with
  | none => .error (.validation (.noKeyInValue model s.primaryKey))
  | some _ => firstLinkCheck r model (s.relationEntries value)

theorem isRefusal_of_firstLinkCheck {entries : List Entry}
    (h : firstLinkCheck r model entries = .error g) : g.IsRefusal := by
  induction entries with
  | nil => cases h
  | cons e rest ih =>
    unfold firstLinkCheck at h
    split at h
    · cases h
    · exact ih h
    · exact isRefusal_of_linkCheck h

theorem updatedRelation_of_reference {e : Entry}
    (hkind : ∀ relation, e.1.kind ≠ .manyToMany relation) (id : Json) :
    updatedRelation r model id e = link r e.2 model id e.1.name := by
  unfold updatedRelation
  split
  · next relation h => exact absurd h (hkind relation)
  · rfl

theorem inOrder_of_firstLinkCheck_error {entries : List Entry}
    (h : firstLinkCheck r model entries = .error g) (id : Json) (others : List (Run Unit))
    (session : Session) :
    inOrder (entries.map (updatedRelation r model id) ++ others) session = (.error g, session) := by
  induction entries with
  | nil => cases h
  | cons e rest ih =>
    unfold firstLinkCheck at h
    rw [List.map_cons, List.cons_append, inOrder, bind_apply]
    split at h
    · cases h
    · next hnull hkind =>
      rw [updatedRelation_of_reference hkind, hnull, link]
      exact ih h
    · next hkind _ =>
      rw [updatedRelation_of_reference hkind, link_of_check_error h]

theorem isRefusal_of_updateCheck {value : Record} (h : updateCheck r model value = .error g) :
    g.IsRefusal := by
  rcases bind_eq_error.mp h with hrequired | ⟨s, -, hchecked⟩
  · exact Registry.isRefusal_of_require hrequired
  · split at hchecked
    · cases hchecked
      exact ⟨rfl, nofun⟩
    · exact isRefusal_of_firstLinkCheck hchecked

/-- An update that is refused at sight sends nothing. -/
theorem updateOne_of_check_error {value : Record} (h : updateCheck r model value = .error g)
    (session : Session) : updateOne r model value session = (.error g, session) := by
  have hwithin : g.within .update = g := by
    rw [Failure.within, (isRefusal_of_updateCheck h).category]
    rfl
  have hrun : ∀ {m : Run (List Record)}, m session = (.error g, session) →
      m.within .update session = (.error g, session) := fun hm => hwithin ▸ within_of_error hm
  refine hrun ?_
  rcases bind_eq_error.mp h with hrequired | ⟨s, hrequired, hchecked⟩
  · rw [hrequired]
    rfl
  · rw [hrequired, ofExcept_ok_bind]
    dsimp only
    cases hid : (Record.get? s.primaryKey value).filter fun v => !v.isNull with
    | none =>
      rw [hid] at hchecked
      cases hchecked
      rfl
    | some id =>
      rw [hid] at hchecked
      dsimp only
      exact bind_of_error (inOrder_of_firstLinkCheck_error hchecked id _ session)

def GivesNoLinks (s : Schema) (value : Record) : Prop :=
  ∀ f ∈ s.fields, ∀ relation, f.kind = .manyToMany relation → Record.get? f.name value = none

/-- Where only references are linked, of values that pass their check the first that is not null
is written. -/
theorem inOrder_of_firstLinkCheck_ok {s : Schema} (hs : r.schema? s.name = some s) {value : Record}
    (hno : GivesNoLinks s value) (id : Json) {entries : List Entry}
    (hentries : ∀ e ∈ entries, e ∈ s.relationEntries value)
    (h : firstLinkCheck r s.name entries = .ok ()) {others : List (Run Unit)}
    (hsends : ∀ m ∈ entries.map (updatedRelation r s.name id) ++ others, Sends r.Admits m)
    (haccepts : ∀ m ∈ others, Accepts m) :
    let writes := inOrder (entries.map (updatedRelation r s.name id) ++ others)
    Accepts writes ∨ ∃ c, c.writesRows = true ∧ Emits c writes := by
  intro writes
  induction entries with
  | nil => exact .inl (accepts_inOrder haccepts)
  | cons e rest ih =>
    have hentry := (List.mem_filter.mp (hentries e (List.mem_cons_self ..))).1
    have hvalue := Schema.get?_of_mem_entries hentry
    have hlater := fun m hm => hsends m (List.mem_cons_of_mem _ hm)
    have hkind : ∀ relation, e.1.kind ≠ .manyToMany relation := by
      intro relation hkind
      rw [hno e.1 (Schema.mem_entries_fields hentry) relation hkind] at hvalue
      cases hvalue
    unfold firstLinkCheck at h
    split at h
    · next relation hlinks => exact absurd hlinks (hkind relation)
    · next hnull _ =>
      have hskipped : writes = inOrder (rest.map (updatedRelation r s.name id) ++ others) := by
        show (updatedRelation r s.name id e >>= fun _ => _) = _
        rw [updatedRelation_of_reference hkind, hnull, link]
        rfl
      rw [hskipped]
      exact ih (fun x hx => hentries x (List.mem_cons_of_mem _ hx)) h hlater
    · next _ hnull =>
      obtain ⟨f, relation, hfound, parts, hparts⟩ := bind_of_linkCheck_ok hnull h
      obtain ⟨t, ht, hf, hname, hrelation⟩ := relationField_eq_ok hfound
      have hreference : f.isReference = true := by
        by_contra hlinks
        have hfield : f ∈ s.fields := by
          rw [hs] at ht
          cases ht
          exact hf
        have hgiven := hno f hfield relation (kind_of_not_isReference hrelation hlinks)
        rw [hname, hvalue] at hgiven
        cases hgiven
      obtain ⟨c, hc, hemits⟩ := emits_link_of_reference hnull hfound hreference hparts id
      refine .inr ⟨c, hc, ?_⟩
      show Emits c (updatedRelation r s.name id e >>= fun _ => _)
      rw [updatedRelation_of_reference hkind]
      exact hemits.bind fun _ => sends_inOrder hlater

/-- An update that passes its check goes on without refusal, or has written something. -/
theorem updateOne_of_check_ok {s : Schema} (hs : r.schema? s.name = some s) {value : Record}
    (hno : GivesNoLinks s value) (h : updateCheck r s.name value = .ok ()) :
    Accepts (updateOne r s.name value) ∨
      ∃ c, c.writesRows = true ∧ Emits c (updateOne r s.name value) := by
  have hrequired := Registry.require_eq_ok.mpr hs
  unfold updateCheck at h
  unfold updateOne
  rw [hrequired] at h ⊢
  rw [ofExcept_ok_bind]
  dsimp only [bind, Except.bind] at h
  dsimp only
  cases hid : (Record.get? s.primaryKey value).filter fun v => !v.isNull with
  | none =>
    rw [hid] at h
    cases h
  | some id =>
    rw [hid] at h
    dsimp only at h ⊢
    have hupdate : Category.update ≠ .validation := nofun
    have hwrites := inOrder_of_firstLinkCheck_ok hs hno id (fun _ he => he) h
      (sends_updateWrites r hs id value) (accepts_ownedWrites s id value)
    rcases hwrites with haccepts | ⟨c, hc, hemits⟩
    · refine .inl (Accepts.within (haccepts.bind fun _ => ?_) hupdate)
      split
      · exact accepts_findByKey hs id
      · exact (accepts_send _).bind fun _ => accepts_findByKey hs id
    · have hmem := Registry.schema?_mem hs
      refine .inr ⟨c, hc, (hemits.bind (P := r.Admits) fun _ => ?_).within .update⟩
      split
      · exact sends_findByKey r _ id {}
      · exact (sends_send (.updateRow (.key hmem) (holds_assigned r hmem))).bind fun _ =>
          sends_findByKey r _ id {}

end Updating

/-- The operation is refused in the store's own words, in a new session. -/
def Refused {α : Type} (replies : List Reply) (m : Run α) : Prop :=
  ∃ g, (m ⟨replies, []⟩).1 = .error g ∧ g.category = .validation

def Unwritten {α : Type} (replies : List Reply) (m : Run α) : Prop :=
  ∀ c ∈ (m ⟨replies, []⟩).2.sent, c.writesRows = false

section Refused

variable {α : Type} {replies : List Reply} {m : Run α}

theorem not_refused_of_accepts (h : Accepts m) : ¬ Refused replies m := by
  rintro ⟨g, hg, hcategory⟩
  exact h _ _ hg hcategory

theorem not_unwritten_of_emits {c : Command} (hc : c.writesRows = true) (h : Emits c m) :
    ¬ Unwritten replies m := by
  intro hunwritten
  obtain ⟨cs, hcs, hmem⟩ := h ⟨replies, []⟩
  rw [List.append_nil] at hcs
  rw [hunwritten c (hcs ▸ hmem)] at hc
  cases hc

theorem unwritten_of_silent (h : (m ⟨replies, []⟩).2 = ⟨replies, []⟩) : Unwritten replies m := by
  intro c hc
  rw [h] at hc
  cases hc

/-- A model that is not registered is refused before anything is sent. -/
theorem unwritten_of_unregistered {model : String} (hs : r.schema? model = none)
    (category : Category) (f : Schema → Run α) :
    Unwritten replies ((Run.ofExcept (r.require model) >>= f).within category) := by
  refine unwritten_of_silent ?_
  rw [within_snd, Registry.require, hs]
  rfl

end Refused

end Store

open Store in
/-- What has been written when a store refuses an operation. Setting values in all rows that match,
or adding to a column, is refused before anything is written. A value that is linked is refused
before anything is written just when it is refused at sight, and an insert just when its model is
not registered. An update whose model, key or first value to link is refused at sight is refused
and sends nothing that writes; and if it gives no links, it is refused before anything is written
in no other case. -/
theorem refusals_unwritten (r : Registry) (replies : List Reply) :
    (∀ model values condition, Refused replies (updateAll r model values condition) →
      Unwritten replies (updateAll r model values condition)) ∧
    (∀ model id field delta, Refused replies (increase r model id field delta) →
      Unwritten replies (increase r model id field delta)) ∧
    (∀ model owner field value, Refused replies (addRelation r model owner field value) →
      (Unwritten replies (addRelation r model owner field value) ↔
        ∃ g, linkCheck r model field value = .error g)) ∧
    (∀ model value, Refused replies (insertOne r model value) →
      (Unwritten replies (insertOne r model value) ↔ r.schema? model = none)) ∧
    (∀ model value, (∃ g, updateCheck r model value = .error g) →
      Refused replies (updateOne r model value) ∧ Unwritten replies (updateOne r model value)) ∧
    (∀ model value, (∀ s, r.schema? model = some s → GivesNoLinks s value) →
      Refused replies (updateOne r model value) →
      (Unwritten replies (updateOne r model value) ↔
        ∃ g, updateCheck r model value = .error g)) := by
  have hupdate : ∀ model value, (∃ g, updateCheck r model value = .error g) →
      Refused replies (updateOne r model value) ∧ Unwritten replies (updateOne r model value) := by
    rintro model value ⟨g, hg⟩
    have hrun := updateOne_of_check_error hg ⟨replies, []⟩
    refine ⟨⟨g, by rw [hrun], (isRefusal_of_updateCheck hg).category⟩, ?_⟩
    exact unwritten_of_silent (by rw [hrun])
  refine ⟨?_, ?_, ?_, ?_, hupdate, ?_⟩
  · intro model values condition hrefused
    cases hs : r.schema? model with
    | none => exact unwritten_of_unregistered hs _ _
    | some s =>
      exact absurd hrefused (not_refused_of_accepts (accepts_updateAll hs values condition))
  · intro model id field delta hrefused
    cases hs : r.schema? model with
    | none => exact unwritten_of_unregistered hs _ _
    | some s =>
      cases h : isIncreasable s field && delta.isNumber with
      | true => exact absurd hrefused (not_refused_of_accepts (accepts_increase hs h id))
      | false =>
        refine unwritten_of_silent ?_
        rw [increase, Run.within_snd, Registry.require_eq_ok.mpr hs, Run.ofExcept_ok_bind, h]
        rfl
  · intro model owner field value hrefused
    unfold addRelation at hrefused ⊢
    cases hchecked : linkCheck r model field value with
    | error g =>
      have hsession := congrArg Prod.snd (link_of_check_error hchecked owner ⟨replies, []⟩)
      exact iff_of_true (unwritten_of_silent hsession) ⟨g, rfl⟩
    | ok _ =>
      refine iff_of_false ?_ (by rintro ⟨_, ⟨⟩⟩)
      rcases link_of_check_ok hchecked owner with haccepts | ⟨c, hc, hemits⟩
      · exact absurd hrefused (not_refused_of_accepts haccepts)
      · exact not_unwritten_of_emits hc hemits
  · intro model value hrefused
    cases hs : r.schema? model with
    | none =>
      refine iff_of_true ?_ rfl
      unfold insertOne
      rw [insertMembers_eq]
      exact unwritten_of_unregistered hs _ _
    | some s =>
      obtain ⟨c, hc, hemits⟩ := emits_insertMembers hs value
      exact iff_of_false (not_unwritten_of_emits hc hemits) nofun
  · intro model value hno hrefused
    cases hchecked : updateCheck r model value with
    | error g => exact iff_of_true (hupdate model value ⟨g, hchecked⟩).2 ⟨g, rfl⟩
    | ok _ =>
      refine iff_of_false ?_ (by rintro ⟨_, ⟨⟩⟩)
      obtain ⟨s, hrequired, -⟩ := bind_eq_ok.mp hchecked
      obtain ⟨hs, rfl⟩ := Registry.require_named hrequired
      rcases updateOne_of_check_ok hs (hno s hs) hchecked with haccepts | ⟨c, hc, hemits⟩
      · exact absurd hrefused (not_refused_of_accepts haccepts)
      · exact not_unwritten_of_emits hc hemits

namespace Sample

def essay : Schema where
  name := "Essay"
  fields := [.ofRelation "author" "User" .oneToOne, .ofRelation "editor" "User" .oneToOne]

def essays : Registry := ⟨[{ name := "User" }, essay,
  { name := "Volume", fields := [(Field.ofRelation "essay" "Essay" .oneToOne).makeWeak] }], rfl⟩

def byNobody : Record :=
  [("author", .str "nobody")]

def firstEssay : List Reply :=
  [.rows { rows := [[("id", .ofInt 1)]] }]

end Sample

open Store Sample in
/-- Nobody is refused as an author at sight. -/
theorem refusals_unwritten_of_essay :
    Refused [] (addRelation essays "Essay" (.ofInt 1) "author" (.str "nobody")) ∧
    Unwritten [] (addRelation essays "Essay" (.ofInt 1) "author" (.str "nobody")) := by
  have hchecked : linkCheck essays "Essay" "author" (.str "nobody") =
      .error (invalidRelated "author") := rfl
  have hrefused : Refused [] (addRelation essays "Essay" (.ofInt 1) "author" (.str "nobody")) :=
    ⟨_, congrArg Prod.fst (link_of_check_error hchecked (.ofInt 1) ⟨[], []⟩), rfl⟩
  obtain ⟨-, -, hlinks, -⟩ := refusals_unwritten essays []
  exact ⟨hrefused, (hlinks _ _ _ _ hrefused).mpr ⟨_, hchecked⟩⟩

section Written

open Run Store Sample

private theorem insertMembers_byNobody :
    insertMembers essays byNobody "Essay" ⟨firstEssay, []⟩ =
      (.error (invalidRelated "author"), ⟨[], [.insertDefaults "Essay" "id"]⟩) := by
  have hchecked : linkCheck essays "Essay" "author" (.str "nobody") =
      .error (invalidRelated "author") := rfl
  have hrow : insertRow essay byNobody ⟨firstEssay, []⟩ =
      (.ok (.ofInt 1), ⟨[], [.insertDefaults "Essay" "id"]⟩) := rfl
  have hwrites : insertWrites essays essay "Essay" (.ofInt 1) byNobody =
      [link essays (.str "nobody") "Essay" (.ofInt 1) "author"] := rfl
  rw [insertMembers_eq, show essays.require "Essay" = .ok essay from rfl, ofExcept_ok_bind]
  refine within_of_error (g := invalidRelated "author") ?_
  rw [bind_apply, hrow]
  dsimp only
  rw [hwrites]
  exact bind_of_error (bind_of_error (link_of_check_error hchecked _ _))

private theorem inOrder_editorNobody :
    inOrder [link essays (.ofInt 7) "Essay" (.ofInt 1) "author",
        link essays (.str "nobody") "Essay" (.ofInt 1) "editor"] ⟨[], []⟩ =
      (.error (invalidRelated "editor"),
        ⟨[], [.update "Essay" [⟨"author", .value (.int 7)⟩] [.equals "id" (.int 1)]]⟩) := by
  have hchecked : linkCheck essays "Essay" "editor" (.str "nobody") =
      .error (invalidRelated "editor") := rfl
  have hnull : Json.ofInt 7 ≠ .null := nofun
  have hfound : relationField essays "Essay" "author" =
      .ok (Field.ofRelation "author" "User" .oneToOne, ⟨"User", .oneToOne, false⟩) := rfl
  have hparts : relatedPart ⟨"User", .oneToOne, false⟩ (Registry.primaryKey essays "User") "author"
      (.ofInt 7) = .ok { keys := [.ofInt 7] } := rfl
  have hset : link essays (.ofInt 7) "Essay" (.ofInt 1) "author" ⟨[], []⟩ = (.ok (),
      ⟨[], [.update "Essay" [⟨"author", .value (.int 7)⟩] [.equals "id" (.int 1)]]⟩) := by
    rw [link_of_reference hnull hfound rfl hparts]
    rfl
  rw [inOrder, bind_apply, hset]
  exact bind_of_error (link_of_check_error hchecked _ _)

/-- An essay stays inserted whose author is refused, on its own or with its volume, and the author
stays set where the editor is refused. -/
theorem refused_written :
    insertOne essays "Essay" byNobody ⟨firstEssay, []⟩ =
      (.error (invalidRelated "author"), ⟨[], [.insertDefaults "Essay" "id"]⟩) ∧
    addRelation essays "Volume" (.ofInt 1) "essay" (.obj byNobody) ⟨firstEssay, []⟩ =
      (.error (invalidRelated "author"), ⟨[], [.insertDefaults "Essay" "id"]⟩) ∧
    updateOne essays "Essay" [("id", .ofInt 1), ("author", .ofInt 7), ("editor", .str "nobody")]
        ⟨[], []⟩ =
      (.error (invalidRelated "editor"),
        ⟨[], [.update "Essay" [⟨"author", .value (.int 7)⟩] [.equals "id" (.int 1)]]⟩) := by
  refine ⟨insertMembers_byNobody, ?_, ?_⟩
  · have hnull : Json.obj byNobody ≠ .null := nofun
    have hfound : relationField essays "Volume" "essay" =
        .ok ((Field.ofRelation "essay" "Essay" .oneToOne).makeWeak,
          ⟨"Essay", .oneToOne, true⟩) := rfl
    have hparts : relatedPart ⟨"Essay", .oneToOne, true⟩ (Registry.primaryKey essays "Essay")
        "essay" (.obj byNobody) = .ok { fresh := [byNobody] } := rfl
    unfold addRelation
    rw [link_of_reference hnull hfound rfl hparts]
    show (insertMembers essays byNobody "Essay" >>= _ >>= _) _ = _
    exact bind_of_error (bind_of_error insertMembers_byNobody)
  · unfold updateOne
    rw [show essays.require "Essay" = .ok essay from rfl, ofExcept_ok_bind]
    exact within_of_error (bind_of_error inOrder_editorNobody)

end Written

end EntityStore
