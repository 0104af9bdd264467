import EntityStore.Proofs.Session.Trace
import EntityStore.Proofs.Store.Owner
import EntityStore.Proofs.Store.Remove

/-!
What unlinking related rows from an owner touches. A table of links is read first, restricted to the
keys that the target names, and only what was read there is unlinked and deleted. The column of a
reference is cleared whatever it holds; the row that it led to is deleted when the relation is weak.
-/
namespace EntityStore

open Run

namespace Store

variable {r : Registry} {model field : String} {owner : Json} {f : Field} {relation : Relation}
  {target : RelationTarget} {session session' : Session}

/-- The commands delete rows with these keys, one behind the other, and with each row what belongs
to it. -/
def Deletes (r : Registry) (model : String) (ids : List Json) (commands : List Command) : Prop :=
  ∃ parts, List.Forall₂
      (fun id part => ∃ session, Issues (deleteOne r model id) session part) ids parts ∧
    commands = parts.flatten

section Links

def keyQuery (r : Registry) (model : String) (condition : Condition) : Query where
  options := { fields := [r.primaryKey model] }
  model := model
  condition := some condition

/-- From this session on, the commands ask for the keys that a target names; nothing is asked for
where it names all rows, or keys. -/
inductive Names (r : Registry) (relation : Relation) (session : Session) :
    RelationTarget → List Command → Option (List Json) → Prop
  | all : Names r relation session .all [] none
  | keys (ids : List Json) : Names r relation session (.keys ids) [] (some ids)
  | matching {condition : Condition} {selection : Selection} {result : RowSet}
      (hselection : (keyQuery r relation.model condition).selection r = .ok selection)
      (hreply : session.replies[0]?.getD (.rows {}) = .rows result) :
    Names r relation session (.matching condition) [.select selection]
      (some (result.column (r.primaryKey relation.model)))

def linksRead (join : JoinTable) (owner : Json) (named : Option (List Json)) : Command :=
  .lookup [join.related] join.name (.equals join.owner (.ofId owner) ::
    match named with
    | some ids => [.among join.related (ids.map .ofId)]
    | none => [])

def linkedDelete (join : JoinTable) (owner : Json) (linked : List Json) : Command :=
  .delete join.name [.equals join.owner (.ofId owner), .among join.related (linked.map .ofId)]

/-- How the removal of links may end and what it sends. Links are removed only to the keys that the
read of the links gives, and only rows with these keys are deleted, all of them when the removal of
a weak relation goes through. -/
inductive RemovesLinks (r : Registry) (join : JoinTable) (owner : Json) (relation : Relation)
    (target : RelationTarget) (session : Session) : Except Failure Unit → List Command → Prop
  | unread {g : Failure} {reads : List Command} (h : ∀ c ∈ reads, c.IsRead) :
    RemovesLinks r join owner relation target session (.error g) reads
  | unnamed {asked : List Command} (hnames : Names r relation session target asked (some [])) :
    RemovesLinks r join owner relation target session (.ok ()) asked
  | unlinked {asked : List Command} {named : Option (List Json)} {result : RowSet}
      (hnames : Names r relation session target asked named)
      (hreply : (session.after asked).replies[0]?.getD (.rows {}) = .rows result)
      (hnone : result.column join.related = []) :
    RemovesLinks r join owner relation target session (.ok ())
      (asked ++ [linksRead join owner named])
  | removed {asked deletes : List Command} {named : Option (List Json)} {result : RowSet}
      {ids : List Json} {outcome : Except Failure Unit}
      (hnames : Names r relation session target asked named)
      (hreply : (session.after asked).replies[0]?.getD (.rows {}) = .rows result)
      (hids : ids <+: result.column join.related) (hdeletes : Deletes r relation.model ids deletes)
      (hstrong : relation.weak = false → ids = [])
      (hdone : outcome = .ok () → relation.weak = true → ids = result.column join.related) :
    RemovesLinks r join owner relation target session outcome
      (asked ++ linksRead join owner named ::
        linkedDelete join owner (result.column join.related) :: deletes)

theorem exists_deletes (r : Registry) (model : String) (ids : List Json) (session : Session) :
    ∃ done deletes, done <+: ids ∧ Deletes r model done deletes ∧
      Issues (deleteAllOf (deleteOne r) model ids) session deletes ∧
      ((deleteAllOf (deleteOne r) model ids session).1 = .ok () → done = ids) := by
  induction ids generalizing session with
  | nil => exact ⟨[], [], List.prefix_rfl, ⟨[], .nil, rfl⟩, issues_of_silent rfl, fun _ => rfl⟩
  | cons id rest ih =>
    obtain ⟨part, hpart, -⟩ := (sends_deleteOne r model id).exists_issues session
    unfold deleteAllOf
    rcases hrun : deleteOne r model id session with ⟨g | keys, s'⟩
    · refine ⟨[id], part, by simp, ⟨[part], .cons ⟨session, hpart⟩ .nil, by simp⟩, ?_, ?_⟩
      · exact hpart.bind_error hrun
      · rw [bind_of_error hrun]
        exact nofun
    · obtain ⟨done, deletes, hprefix, ⟨parts, hparts, rfl⟩, hissues, hdone⟩ := ih s'
      refine ⟨id :: done, part ++ parts.flatten, List.cons_prefix_cons.mpr ⟨rfl, hprefix⟩,
        ⟨part :: parts, .cons ⟨session, hpart⟩ hparts, rfl⟩, hpart.bind hrun hissues, ?_⟩
      rw [bind_apply, hrun]
      exact fun hok => congrArg (id :: ·) (hdone hok)

theorem Names.reads {asked : List Command} {named : Option (List Json)}
    (h : Names r relation session target asked named) : ∀ c ∈ asked, c.IsRead := by
  cases h with
  | all | keys ids => exact fun c hc => absurd hc List.not_mem_nil
  | matching => exact List.forall_mem_singleton.mpr rfl

theorem targetKeys_cases (r : Registry) (relation : Relation) (target : RelationTarget)
    (session : Session) :
    (∃ g s' reads, targetKeys r relation target session = (.error g, s') ∧
      Issues (targetKeys r relation target) session reads ∧ ∀ c ∈ reads, c.IsRead) ∨
    ∃ asked named, targetKeys r relation target session = (.ok named, session.after asked) ∧
      Issues (targetKeys r relation target) session asked ∧
      Names r relation session target asked named := by
  cases target with
  | all => exact .inr ⟨[], none, rfl, issues_of_silent rfl, .all⟩
  | keys ids => exact .inr ⟨[], some ids, rfl, issues_of_silent rfl, .keys ids⟩
  | matching condition =>
    unfold targetKeys
    cases hselection : (keyQuery r relation.model condition).selection r with
    | error g =>
      rw [keyQuery] at hselection
      simp only [hselection]
      exact .inl ⟨g, session, [], rfl, issues_of_silent rfl, by simp⟩
    | ok selection =>
      have hkept := hselection
      rw [keyQuery] at hselection
      simp only [hselection, ofExcept_ok_bind]
      have hissues := (issues_send (.select selection) session).bind_silent
        (f := fun result => pure (some (result.column (r.primaryKey relation.model))))
        fun _ _ => rfl
      rcases hsent : send (.select selection) session with ⟨g | result, s'⟩
      · exact .inl ⟨g, s', [.select selection], bind_of_error hsent, hissues,
          List.forall_mem_singleton.mpr rfl⟩
      · obtain ⟨hreply, rfl⟩ := send_ok hsent
        refine .inr ⟨_, _, ?_, hissues, .matching hkept hreply⟩
        rw [bind_apply, hsent]
        rfl

theorem issues_linkedKeys (join : JoinTable) (owner : Json) (named : Option (List Json))
    (session : Session) :
    Issues (linkedKeys join owner named) session [linksRead join owner named] :=
  (issues_send _ session).bind_silent fun _ _ => rfl

theorem linkedKeys_ok {join : JoinTable} {named : Option (List Json)} {linked : List Json}
    (h : linkedKeys join owner named session = (.ok linked, session')) :
    ∃ result, session.replies[0]?.getD (.rows {}) = .rows result ∧
      linked = result.column join.related := by
  obtain ⟨result, s', hsent, hlinked, -⟩ := bind_ok (congrArg Prod.fst h)
  cases hlinked
  exact ⟨result, (send_ok hsent).1, rfl⟩

def removeLinked (r : Registry) (join : JoinTable) (owner : Json) (relation : Relation)
    (linked : List Json) : Run Unit := do
  let _ ← send (linkedDelete join owner linked)
  if relation.weak then deleteAllOf (deleteOne r) relation.model linked else pure ()

theorem issues_removeLinked (r : Registry) (join : JoinTable) (owner : Json) (relation : Relation)
    (linked : List Json) (session : Session) :
    let run := removeLinked r join owner relation linked
    ∃ done deletes, done <+: linked ∧ Deletes r relation.model done deletes ∧
      (relation.weak = false → done = []) ∧
      ((run session).1 = .ok () → relation.weak = true → done = linked) ∧
      Issues run session (linkedDelete join owner linked :: deletes) := by
  intro run
  have hdelete := issues_send (linkedDelete join owner linked) session
  rcases hsent : send (linkedDelete join owner linked) session with ⟨g | result, s'⟩
  · have hrun : run session = (.error g, s') := bind_of_error hsent
    refine ⟨[], [], List.nil_prefix, ⟨[], .nil, rfl⟩, fun _ => rfl, ?_, hdelete.bind_error hsent⟩
    rw [hrun]
    exact nofun
  · have hrun : run session = (if relation.weak then deleteAllOf (deleteOne r) relation.model linked
        else pure ()) s' := by
      rw [show run = (send (linkedDelete join owner linked) >>= _) from rfl, bind_apply, hsent]
    cases hweak : relation.weak with
    | false =>
      refine ⟨[], [], List.nil_prefix, ⟨[], .nil, rfl⟩, fun _ => rfl, nofun,
        hdelete.bind hsent ?_⟩
      rw [hweak]
      exact issues_of_silent rfl
    | true =>
      obtain ⟨done, deletes, hprefix, hdeletes, hissues, hdone⟩ :=
        exists_deletes r relation.model linked s'
      refine ⟨done, deletes, hprefix, hdeletes, nofun, ?_, hdelete.bind hsent ?_⟩
      · rw [hrun, hweak]
        exact fun hok _ => hdone hok
      · rw [hweak]
        exact hissues

def removeNamed (r : Registry) (join : JoinTable) (owner : Json) (relation : Relation)
    (named : Option (List Json)) : Run Unit := do
  let linked ← linkedKeys join owner named
  if linked.isEmpty then pure () else removeLinked r join owner relation linked

/-- Links are removed after they have been read. -/
theorem removes_removeNamed {join : JoinTable} {asked : List Command} {named : Option (List Json)}
    (hnames : Names r relation session target asked named) :
    let run := removeNamed r join owner relation named
    ∃ commands, Issues run (session.after asked) commands ∧
      RemovesLinks r join owner relation target session (run (session.after asked)).1
        (asked ++ commands) := by
  intro run
  have hread := issues_linkedKeys join owner named (session.after asked)
  rcases hlinked : linkedKeys join owner named (session.after asked) with ⟨g | linked, s'⟩
  · have hrun : run (session.after asked) = (.error g, s') := bind_of_error hlinked
    refine ⟨_, hread.bind_error hlinked, ?_⟩
    rw [hrun]
    exact .unread (List.forall_mem_append.mpr ⟨hnames.reads, List.forall_mem_singleton.mpr rfl⟩)
  · obtain ⟨result, hreply, rfl⟩ := linkedKeys_ok hlinked
    have hrun : run (session.after asked) =
        (if (result.column join.related).isEmpty then pure ()
          else removeLinked r join owner relation (result.column join.related)) s' := by
      rw [show run = (linkedKeys join owner named >>= _) from rfl, bind_apply, hlinked]
    rw [hrun]
    split
    · next hnone =>
      refine ⟨[linksRead join owner named] ++ [], hread.bind hlinked ?_, ?_⟩
      · rw [if_pos hnone]
        exact issues_of_silent rfl
      · exact .unlinked hnames hreply (List.isEmpty_iff.mp hnone)
    · next hsome =>
      obtain ⟨done, deletes, hprefix, hdeletes, hstrong, hdone, hissues⟩ :=
        issues_removeLinked r join owner relation (result.column join.related) s'
      refine ⟨[linksRead join owner named] ++
        linkedDelete join owner (result.column join.related) :: deletes,
        hread.bind hlinked ?_, ?_⟩
      · rw [if_neg hsome]
        exact hissues
      · exact .removed hnames hreply hprefix hdeletes hstrong hdone

theorem removes_removeLinks (r : Registry) (model : String) (owner : Json) (f : Field)
    (relation : Relation) (target : RelationTarget) (session : Session) :
    let run := removeLinks r (deleteOne r) model owner f relation target
    ∃ commands, Issues run session commands ∧
      RemovesLinks r (JoinTable.of model f.name relation.model) owner relation target session
        (run session).1 commands := by
  intro run
  obtain ⟨g, s', reads, hnamed, hissues, hreads⟩ | ⟨asked, named, hnamed, hissues, hnames⟩ :=
    targetKeys_cases r relation target session
  · have hrun : run session = (.error g, s') := bind_of_error hnamed
    exact ⟨reads, hissues.bind_error hnamed, by rw [hrun]; exact .unread hreads⟩
  · rw [show run session = _ from bind_of_ok hnamed]
    rcases named with _ | ⟨_ | ⟨id, rest⟩⟩
    · obtain ⟨commands, hcommands, hremoves⟩ := removes_removeNamed hnames
      exact ⟨_, hissues.bind hnamed hcommands, hremoves⟩
    · refine ⟨asked ++ [], hissues.bind hnamed (issues_of_silent rfl), ?_⟩
      rw [List.append_nil]
      exact .unnamed hnames
    · obtain ⟨commands, hcommands, hremoves⟩ := removes_removeNamed hnames
      exact ⟨_, hissues.bind hnamed hcommands, hremoves⟩

end Links

section Reference

def referenceRead (r : Registry) (model : String) (owner : Json) (f : Field) : Command :=
  .lookup [f.name] model [.equals (r.primaryKey model) (.ofId owner)]

def referenceClear (r : Registry) (model : String) (owner : Json) (f : Field) : Command :=
  .update model [⟨f.name, .zero⟩] [.equals (r.primaryKey model) (.ofId owner)]

/-- Where the key of a row comes from that a reference leads to: from the target, or from the
column, which the commands read. -/
inductive Leads (r : Registry) (model : String) (owner : Json) (f : Field) (session : Session) :
    RelationTarget → List Command → Json → Prop
  | given {ids : List Json} {id : Json} (h : id ∈ ids) :
    Leads r model owner f session (.keys ids) [] id
  | read {target : RelationTarget} {result : RowSet} {id : Json}
      (hreply : session.replies[0]?.getD (.rows {}) = .rows result)
      (hlast : result.rows.getLast?.bind (Record.get? f.name) = some id) :
    Leads r model owner f session target [referenceRead r model owner f] id

/-- How the removal of a reference may end and what it sends. Nothing is cleared but the column of
the owner. At most one row is deleted, where the relation is weak. -/
inductive ClearsReference (r : Registry) (model : String) (owner : Json) (f : Field)
    (relation : Relation) (target : RelationTarget) (session : Session) :
    Except Failure Unit → List Command → Prop
  | strong {outcome : Except Failure Unit} (hstrong : relation.weak = false) :
    ClearsReference r model owner f relation target session outcome [referenceClear r model owner f]
  | unread {g : Failure} (hweak : relation.weak = true) :
    ClearsReference r model owner f relation target session (.error g)
      [referenceRead r model owner f]
  | empty {outcome : Except Failure Unit} {reads : List Command} (hweak : relation.weak = true)
      (hreads : reads = [] ∨ reads = [referenceRead r model owner f]) :
    ClearsReference r model owner f relation target session outcome
      (reads ++ [referenceClear r model owner f])
  | undeleted {g : Failure} {reads deletes : List Command} {id : Json}
      (hweak : relation.weak = true) (hleads : Leads r model owner f session target reads id)
      (hkey : id.isKey = true) (hdeletes : Deletes r relation.model [id] deletes) :
    ClearsReference r model owner f relation target session (.error g) (reads ++ deletes)
  | deleted {outcome : Except Failure Unit} {reads deletes : List Command} {id : Json}
      (hweak : relation.weak = true) (hleads : Leads r model owner f session target reads id)
      (hkey : id.isKey = true) (hdeletes : Deletes r relation.model [id] deletes) :
    ClearsReference r model owner f relation target session outcome
      (reads ++ (deletes ++ [referenceClear r model owner f]))

def leadingKey (r : Registry) (model : String) (owner : Json) (f : Field) :
    RelationTarget → Run (Option Json)
  | .keys (id :: _) => pure (some id)
  | _ => currentReference r model owner f.name

def clearLeading (r : Registry) (model : String) (owner : Json) (f : Field) (relation : Relation)
    (current : Option Json) : Run Unit := do
  match current with
  | some id => if id.isKey then do let _ ← deleteOne r relation.model id else pure ()
  | none => pure ()
  let _ ← send (referenceClear r model owner f)
  pure ()

theorem clearReference_of_weak (hweak : relation.weak = true) :
    clearReference r (deleteOne r) model owner f relation target =
      leadingKey r model owner f target >>= clearLeading r model owner f relation := by
  rw [clearReference, if_pos hweak]
  rcases target with _ | ⟨_ | ⟨id, rest⟩⟩ | condition <;> rfl

theorem clearReference_of_strong (hstrong : relation.weak = false) :
    clearReference r (deleteOne r) model owner f relation target = (do
      let _ ← send (referenceClear r model owner f)
      pure ()) := by
  rw [clearReference, hstrong]
  rfl

theorem issues_referenceClear (session : Session) :
    Issues (do
      let _ ← send (referenceClear r model owner f)
      pure ()) session [referenceClear r model owner f] :=
  (issues_send _ session).bind_silent fun _ _ => rfl

theorem issues_currentReference (r : Registry) (model : String) (owner : Json) (f : Field)
    (session : Session) :
    Issues (currentReference r model owner f.name) session [referenceRead r model owner f] :=
  (issues_send _ session).bind_silent fun _ _ => rfl

theorem leads_of_currentReference (target : RelationTarget) {current : Option Json}
    (h : currentReference r model owner f.name session = (.ok current, session')) {id : Json}
    (hid : current = some id) :
    Leads r model owner f session target [referenceRead r model owner f] id := by
  obtain ⟨result, s', hsent, hcurrent, -⟩ := bind_ok (congrArg Prod.fst h)
  cases hcurrent
  exact .read (send_ok hsent).1 hid

/-- The key is given, or the column is read. -/
theorem leadingKey_cases (r : Registry) (model : String) (owner : Json) (f : Field)
    (target : RelationTarget) :
    (∃ id, leadingKey r model owner f target = pure (some id) ∧
      ∀ session, Leads r model owner f session target [] id) ∨
    leadingKey r model owner f target = currentReference r model owner f.name := by
  rcases target with _ | ⟨_ | ⟨id, rest⟩⟩ | condition
  · exact .inr rfl
  · exact .inr rfl
  · exact .inl ⟨id, rfl, fun _ => .given (List.mem_cons_self ..)⟩
  · exact .inr rfl

/-- A key that leads nowhere deletes nothing. -/
theorem clears_clearLeading {reads : List Command} {current : Option Json}
    (hweak : relation.weak = true)
    (hreads : reads = [] ∨ reads = [referenceRead r model owner f])
    (hleads : ∀ id, current = some id → Leads r model owner f session target reads id)
    (session' : Session) :
    let run := clearLeading r model owner f relation current
    ∃ commands, Issues run session' commands ∧
      ClearsReference r model owner f relation target session (run session').1
        (reads ++ commands) := by
  intro run
  by_cases hkey : ∃ id, current = some id ∧ id.isKey = true
  · obtain ⟨id, rfl, hkey⟩ := hkey
    have heq : run = (do
        let _ ← deleteOne r relation.model id
        let _ ← send (referenceClear r model owner f)
        pure ()) := by
      simp only [run, clearLeading, hkey, ↓reduceIte]
    obtain ⟨deletes, hissues, -⟩ := (sends_deleteOne r relation.model id).exists_issues session'
    have hdeletes : Deletes r relation.model [id] deletes :=
      ⟨[deletes], .cons ⟨session', hissues⟩ .nil, by simp⟩
    rw [heq]
    rcases hrun : deleteOne r relation.model id session' with ⟨g | keys, s'⟩
    · refine ⟨deletes, hissues.bind_error hrun, ?_⟩
      rw [bind_of_error hrun]
      exact .undeleted hweak (hleads id rfl) hkey hdeletes
    · exact ⟨_, hissues.bind hrun (issues_referenceClear s'),
        .deleted hweak (hleads id rfl) hkey hdeletes⟩
  · have heq : run = (do
        let _ ← send (referenceClear r model owner f)
        pure ()) := by
      cases current with
      | none => rfl
      | some id =>
        have hno : id.isKey = false := by simpa using fun h => hkey ⟨id, rfl, h⟩
        simp only [run, clearLeading, hno]
        rfl
    rw [heq]
    exact ⟨_, issues_referenceClear session', .empty hweak hreads⟩

theorem clears_clearReference (r : Registry) (model : String) (owner : Json) (f : Field)
    (relation : Relation) (target : RelationTarget) (session : Session) :
    let run := clearReference r (deleteOne r) model owner f relation target
    ∃ commands, Issues run session commands ∧
      ClearsReference r model owner f relation target session (run session).1 commands := by
  intro run
  cases hweak : relation.weak with
  | false =>
    rw [show run = _ from clearReference_of_strong hweak]
    exact ⟨_, issues_referenceClear session, .strong hweak⟩
  | true =>
    rw [show run = _ from clearReference_of_weak hweak]
    obtain ⟨id, hgiven, hleads⟩ | hread := leadingKey_cases r model owner f target
    · rw [hgiven, pure_bind]
      have hled : ∀ other, some id = some other →
          Leads r model owner f session target [] other := by
        rintro _ ⟨⟩
        exact hleads session
      exact clears_clearLeading hweak (.inl rfl) hled session
    · rw [hread]
      have hissues := issues_currentReference r model owner f session
      rcases hrun : currentReference r model owner f.name session with ⟨g | current, s'⟩
      · refine ⟨_, hissues.bind_error hrun, ?_⟩
        rw [bind_of_error hrun]
        exact .unread hweak
      · obtain ⟨commands, hcommands, hclears⟩ := clears_clearLeading hweak (.inr rfl)
          (fun id => leads_of_currentReference target hrun) s'
        refine ⟨_, hissues.bind hrun hcommands, ?_⟩
        rw [bind_of_ok hrun]
        exact hclears

end Reference

end Store

open Store in
/-- What unlinking touches. Through a table of links, it unlinks and deletes nothing but what the
one read of the links gives, and this read asks for no others than the target names: those in its
list, or those that a query with its condition gives. The rows are deleted only where the relation
is weak. Of a reference it clears the owner's column and no other; it deletes at most one row, where
the relation is weak, whose key has been read from this column or is in the target's list. -/
theorem removal_confined (r : Registry) {model field : String} {f : Field} {relation : Relation}
    (hfound : relationField r model field = .ok (f, relation)) (owner : Json)
    (target : RelationTarget) (session : Session) :
    let run := removeRelation r model owner field target
    ∃ commands, Issues run session commands ∧
      (f.isReference = true →
        ClearsReference r model owner f relation target session (run session).1 commands) ∧
      (f.isReference = false →
        RemovesLinks r (JoinTable.of model f.name relation.model) owner relation target session
          (run session).1 commands) := by
  intro run
  cases hreference : f.isReference with
  | true =>
    have heq : run = clearReference r (deleteOne r) model owner f relation target := by
      simp only [run, removeRelation, removeRelationBy, hfound, ofExcept_ok_bind, hreference,
        ↓reduceIte]
    obtain ⟨commands, hissues, hclears⟩ :=
      clears_clearReference r model owner f relation target session
    rw [heq]
    exact ⟨commands, hissues, fun _ => hclears, fun h => Bool.noConfusion h⟩
  | false =>
    have heq : run = removeLinks r (deleteOne r) model owner f relation target := by
      simp only [run, removeRelation, removeRelationBy, hfound, ofExcept_ok_bind, hreference,
        Bool.false_eq_true, ↓reduceIte]
    obtain ⟨commands, hissues, hremoves⟩ :=
      removes_removeLinks r model owner f relation target session
    rw [heq]
    exact ⟨commands, hissues, fun h => Bool.noConfusion h, fun _ => hremoves⟩

namespace Sample

def artist : Schema where
  name := "Artist"
  fields := [
    .ofRelation "mentor" "Artist" .oneToOne,
    (Field.ofRelation "studio" "Studio" .oneToOne).makeWeak,
    (Field.ofRelation "works" "Work" .manyToMany).makeWeak]

def artists : Registry := ⟨[artist, { name := "Studio" }, { name := "Work" }], rfl⟩

def oneWork : List Reply :=
  [.rows { rows := [[("work", .ofInt 7)]] }, .rows { affected := 1 }, .rows { affected := 1 }]

end Sample

section Artist

open Store Sample

/-- Of the works that are named, the one that is linked is unlinked and deleted. -/
theorem removal_confined_of_works :
    let run := removeRelation artists "Artist" (.ofInt 1) "works" (.keys [.ofInt 7, .ofInt 9])
    Issues run ⟨oneWork, []⟩
      [.lookup ["work"] "ArtistHasWorks"
          [.equals "artist" (.int 1), .among "work" [.int 7, .int 9]],
        .delete "ArtistHasWorks" [.equals "artist" (.int 1), .among "work" [.int 7]],
        .delete "Work" [.equals "id" (.int 7)]] ∧
    ∃ commands, Issues run ⟨oneWork, []⟩ commands ∧
      RemovesLinks artists ⟨"ArtistHasWorks", "artist", "work"⟩ (.ofInt 1)
        ⟨"Work", .manyToMany, true⟩ (.keys [.ofInt 7, .ofInt 9]) ⟨oneWork, []⟩ (.ok ())
        commands := by
  have hfound : relationField artists "Artist" "works" =
      .ok ((Field.ofRelation "works" "Work" .manyToMany).makeWeak,
        ⟨"Work", .manyToMany, true⟩) := rfl
  obtain ⟨commands, hissues, -, hremoves⟩ :=
    removal_confined artists hfound (.ofInt 1) (.keys [.ofInt 7, .ofInt 9]) ⟨oneWork, []⟩
  exact ⟨rfl, commands, hissues, hremoves rfl⟩

/-- A studio that is named is deleted, and the column of a reference cleared, although nothing has
been read. A work is unlinked and deleted that is not named, if the server gives it in place of the
one that is asked for. -/
theorem removal_unselected :
    Issues (removeRelation artists "Artist" (.ofInt 1) "studio" (.keys [.ofInt 99])) ⟨[], []⟩
      [.delete "Studio" [.equals "id" (.int 99)],
        .update "Artist" [⟨"studio", .zero⟩] [.equals "id" (.int 1)]] ∧
    Issues (removeRelation artists "Artist" (.ofInt 1) "mentor" .all) ⟨[], []⟩
      [.update "Artist" [⟨"mentor", .zero⟩] [.equals "id" (.int 1)]] ∧
    Issues (removeRelation artists "Artist" (.ofInt 1) "works" (.keys [.ofInt 9])) ⟨oneWork, []⟩
      [.lookup ["work"] "ArtistHasWorks" [.equals "artist" (.int 1), .among "work" [.int 9]],
        .delete "ArtistHasWorks" [.equals "artist" (.int 1), .among "work" [.int 7]],
        .delete "Work" [.equals "id" (.int 7)]] :=
  ⟨rfl, rfl, rfl⟩

end Artist

end EntityStore
