import EntityStore.Proofs.Reading.Command
import EntityStore.Proofs.Session.Failures
import EntityStore.Store.Remove
import Mathlib.Data.List.Forall2

/-!
How far deletes spread. A delete spreads to other rows only behind a reply that reports a deleted
row, whatever the models: so the deletes inside of each other end with the replies, and the budget
of the definition is never used up. Two runs that differ in the deletes they spread to are compared
step by step; the number of replies left is what the induction is on.
-/
namespace EntityStore

namespace Run

variable {α β : Type} {Rel Pre : Session → Session → Prop} {m m' : Run α}

/-- From sessions that are related, both operations give the same result, and end in sessions that
are related as the result says. -/
def EndAlike (Pre : Session → Session → Prop)
    (Post : Except Failure α → Session → Session → Prop) (m m' : Run α) : Prop :=
  ∀ s s', Pre s s' → (m s).1 = (m' s').1 ∧ Post (m s).1 (m s).2 (m' s').2

abbrev Alike (Rel : Session → Session → Prop) (m m' : Run α) : Prop :=
  EndAlike Rel (fun _ => Rel) m m'

section Composed

variable {Mid : Except Failure α → Session → Session → Prop}

theorem EndAlike.bind {Post : Except Failure β → Session → Session → Prop} {f f' : α → Run β}
    (hm : EndAlike Pre Mid m m')
    (herror : ∀ g s s', Mid (.error g) s s' → Post (.error g) s s')
    (hf : ∀ x, EndAlike (Mid (.ok x)) Post (f x) (f' x)) :
    EndAlike Pre Post (m >>= f) (m' >>= f') := by
  intro s s' h
  have hended := hm s s' h
  rw [bind_apply, bind_apply]
  rcases hms : m s with ⟨result, t⟩
  rcases hms' : m' s' with ⟨result', t'⟩
  rw [hms, hms'] at hended
  obtain ⟨hresult, hmid⟩ := hended
  cases hresult
  cases result with
  | error g => exact ⟨rfl, herror g t t' hmid⟩
  | ok x => exact hf x t t' hmid

theorem EndAlike.within {Post : Except Failure α → Session → Session → Prop}
    {category : Category} (hm : EndAlike Pre Post m m')
    (h : ∀ result s s', Post result s s' →
      Post (result.mapError (Failure.within category)) s s') :
    EndAlike Pre Post (m.within category) (m'.within category) := by
  intro s s' hpre
  obtain ⟨hresult, hended⟩ := hm s s' hpre
  rw [within_apply, within_apply]
  exact ⟨congrArg (Except.mapError _) hresult, h _ _ _ hended⟩

theorem alike_pure (x : α) : Alike Rel (pure x : Run α) (pure x) :=
  fun _ _ h => ⟨rfl, h⟩

theorem Alike.bind {f f' : α → Run β} (hm : Alike Rel m m') (hf : ∀ x, Alike Rel (f x) (f' x)) :
    Alike Rel (m >>= f) (m' >>= f') :=
  EndAlike.bind hm (fun _ _ _ h => h) hf

theorem alike_ofExcept (e : Except Failure α) : Alike Rel (ofExcept e) (ofExcept e) :=
  fun _ _ h => ⟨rfl, h⟩

theorem Alike.ignoringFailure {m m' : Run Unit} (hm : Alike Rel m m') :
    Alike Rel (ignoringFailure m) (ignoringFailure m') :=
  fun s s' h => ⟨rfl, (hm s s' h).2⟩

theorem alike_inOrder {ms ms' : List (Run Unit)} (h : List.Forall₂ (Alike Rel) ms ms') :
    Alike Rel (inOrder ms) (inOrder ms') := by
  induction h with
  | nil => exact alike_pure ()
  | cons hfirst _ ih => exact hfirst.bind fun _ => ih

end Composed

end Run

namespace Store

open Run

variable {r : Registry} {Rel : Session → Session → Prop} {delete delete' : Delete}

section Steps

variable (hsend : ∀ c, c.touchesRows = true → Alike Rel (send c) (send c))

include hsend

theorem alike_currentReference (model : String) (owner : Json) (field : String) :
    Alike Rel (currentReference r model owner field) (currentReference r model owner field) :=
  (hsend _ rfl).bind fun _ => alike_pure _

theorem alike_linkedKeys (join : JoinTable) (owner : Json) (among : Option (List Json)) :
    Alike Rel (linkedKeys join owner among) (linkedKeys join owner among) :=
  (hsend _ rfl).bind fun _ => alike_pure _

theorem alike_targetKeys (relation : Relation) (target : RelationTarget) :
    Alike Rel (targetKeys r relation target) (targetKeys r relation target) := by
  cases target with
  | all => exact alike_pure _
  | keys ids => exact alike_pure _
  | matching condition =>
    exact (alike_ofExcept _).bind fun selection => (hsend _ rfl).bind fun _ => alike_pure _

theorem alike_ownedReferences (s : Schema) (id : Json) :
    Alike Rel (ownedReferences s id) (ownedReferences s id) := by
  unfold ownedReferences
  dsimp only
  split
  · exact alike_pure _
  · exact (hsend _ rfl).bind fun _ => alike_pure _

theorem alike_deleteOwned (table column : String) (id : Json) :
    Alike Rel (deleteOwned table column id) (deleteOwned table column id) :=
  (hsend _ rfl).bind fun _ => alike_pure ()

variable (hdelete : ∀ model id, Alike Rel (delete model id) (delete' model id))

include hdelete

omit hsend in
theorem alike_deleteAllOf (model : String) (ids : List Json) :
    Alike Rel (deleteAllOf delete model ids) (deleteAllOf delete' model ids) := by
  induction ids with
  | nil => exact alike_pure ()
  | cons id rest ih => exact (hdelete model id).bind fun _ => ih

omit hsend in
/-- The row of a weak relation is deleted first, if there is one. -/
private theorem alike_spread (model : String) (after : Run Unit) (hafter : Alike Rel after after)
    (current : Option Json) :
    Alike Rel
      (match current with
        | some id => if id.isKey then do let _ ← delete model id; after else after
        | none => after)
      (match current with
        | some id => if id.isKey then do let _ ← delete' model id; after else after
        | none => after) := by
  cases current with
  | none => exact hafter
  | some id =>
    dsimp only
    split
    · exact (hdelete model id).bind fun _ => hafter
    · exact hafter

theorem alike_clearReference (model : String) (owner : Json) (f : Field) (relation : Relation)
    (target : RelationTarget) :
    Alike Rel (clearReference r delete model owner f relation target)
      (clearReference r delete' model owner f relation target) := by
  have hclear : Alike Rel (do
      let _ ← Run.send <| .update model [⟨f.name, .zero⟩]
        [.equals (r.primaryKey model) (.ofId owner)]
      pure ()) (do
      let _ ← Run.send <| .update model [⟨f.name, .zero⟩]
        [.equals (r.primaryKey model) (.ofId owner)]
      pure ()) :=
    (hsend _ rfl).bind fun _ => alike_pure ()
  unfold clearReference
  dsimp only
  split
  · split
    · exact (alike_pure _).bind fun current => alike_spread hdelete _ _ hclear current
    · exact (alike_currentReference hsend _ _ _).bind fun current =>
        alike_spread hdelete _ _ hclear current
  · exact hclear

theorem alike_removeLinks (model : String) (owner : Json) (f : Field) (relation : Relation)
    (target : RelationTarget) :
    Alike Rel (removeLinks r delete model owner f relation target)
      (removeLinks r delete' model owner f relation target) := by
  refine (alike_targetKeys hsend relation target).bind fun among => ?_
  split
  · exact alike_pure ()
  · refine (alike_linkedKeys hsend _ owner among).bind fun linked => ?_
    split
    · exact alike_pure ()
    · refine (hsend _ rfl).bind fun _ => ?_
      split
      · exact alike_deleteAllOf hdelete _ linked
      · exact alike_pure ()

theorem alike_removeRelationBy (model : String) (owner : Json) (field : String)
    (target : RelationTarget) :
    Alike Rel (removeRelationBy r delete model owner field target)
      (removeRelationBy r delete' model owner field target) := by
  refine (alike_ofExcept _).bind fun found => ?_
  obtain ⟨f, relation⟩ := found
  dsimp only
  split
  · exact alike_clearReference hsend hdelete _ _ _ _ _
  · exact alike_removeLinks hsend hdelete _ _ _ _ _

/-- Both deletes spread along the same relations. -/
theorem alike_relationCleanup (s : Schema) (id : Json) (owned : Record) (f : Field) :
    Option.Rel (Alike Rel) (relationCleanup r delete s id owned f)
      (relationCleanup r delete' s id owned f) := by
  have hremove := fun target =>
    alike_removeRelationBy (r := r) hsend hdelete s.name id f.name target
  unfold relationCleanup
  split
  case h_1 => exact .some (hremove _)
  case h_4 | h_5 => exact .none
  all_goals
    split
    · split
      · exact .some (hremove _)
      · exact .none
    · exact .none

theorem alike_cleanups (s : Schema) (id : Json) (owned : Record) :
    List.Forall₂ (Alike Rel) (cleanups r delete s id owned) (cleanups r delete' s id owned) := by
  have hsame : ∀ {ms : List (Run Unit)}, (∀ m ∈ ms, Alike Rel m m) →
      List.Forall₂ (Alike Rel) ms ms := List.forall₂_same.mpr
  have howned : ∀ table column, Alike Rel (deleteOwned table column id)
      (deleteOwned table column id) := fun table column => alike_deleteOwned hsend table column id
  have hrelations : List.Forall₂ (Alike Rel)
      (s.fields.filterMap (relationCleanup r delete s id owned))
      (s.fields.filterMap (relationCleanup r delete' s id owned)) := by
    refine List.rel_filterMap (R := Eq) ?_ (List.forall₂_eq_eq_eq ▸ rfl)
    rintro f _ rfl
    exact alike_relationCleanup hsend hdelete s id owned f
  refine List.rel_append (List.rel_append hrelations ?_) ?_
  · exact hsame (List.forall_mem_map.mpr fun f _ => howned _ _)
  · refine hsame fun m hm => ?_
    split at hm
    · cases hm
    · rw [List.mem_singleton.mp hm]
      exact howned _ _

end Steps

end Store

section Notes

/-- No operation on rows sends a statement in the words of the server, so these serve as notes. -/
def Command.isNote : Command → Bool
  | .raw _ => true
  | _ => false

theorem Command.isNote_of_touchesRows {c : Command} (h : c.touchesRows = true) :
    c.isNote = false := by
  cases c with
  | raw s => cases h
  | _ => rfl

/-- Leaves a note. No server sees it, and it takes no reply. -/
def Run.note : Run Unit := fun s =>
  (.ok (), { s with sent := .raw ⟨"", []⟩ :: s.sent })

/-- What is sent does not depend on what was sent before. -/
theorem Run.send_eq (c : Command) (s : Session) :
    (send c s).2 = ⟨s.replies.tail, c :: s.sent⟩ ∧
      ∀ sent, (send c ⟨s.replies, sent⟩).1 = (send c s).1 := by
  obtain ⟨_ | ⟨_ | _, rest⟩, sent⟩ := s <;> exact ⟨rfl, fun _ => rfl⟩

end Notes

namespace Store

open Run

variable {r : Registry} {delete delete' bottom : Delete}

/-- A delete that leaves a note when it has deleted its row and gone on to what belongs to it, as
its result tells. -/
def noting (delete : Delete) : Delete := fun model id => do
  let deleted ← delete model id
  if deleted.isEmpty then pure deleted
  else do
    Run.note
    pure deleted

/-- Deletes inside of each other to this depth, with a note from each that goes on. What is done
below is left open. -/
def unrolled (r : Registry) (bottom : Delete) : Nat → Delete
  | 0 => bottom
  | depth + 1 => noting (deleteBy r (unrolled r bottom depth))

/-- A session and the same one with notes, from a point on up to which the same was sent. There are
fewer replies left than the bound, and notes and replies together are within the credit. -/
structure Tracks (base : List Command) (bound credit : Nat) (s noted : Session) : Prop where
  replies : noted.replies = s.replies
  left : s.replies.length < bound
  sent : ∃ news, noted.sent = news ++ base ∧
    s.sent = (news.filter fun c => !c.isNote) ++ base ∧
    news.countP Command.isNote + s.replies.length ≤ credit

section Tracked

variable {base : List Command} {bound credit : Nat} {s noted : Session} {c : Command}

theorem tracks_self (s : Session) : Tracks s.sent (s.replies.length + 1) s.replies.length s s :=
  ⟨rfl, Nat.lt_succ_self _, [], rfl, rfl, Nat.le_of_eq (Nat.zero_add _)⟩

/-- The notes say what the session is without them. -/
theorem Tracks.unique {t : Session} {bound' credit' : Nat} (hs : Tracks base bound credit s noted)
    (ht : Tracks base bound' credit' t noted) : s = t := by
  obtain ⟨hreplies, -, news, hnews, hsent, -⟩ := hs
  obtain ⟨hreplies', -, news', hnews', hsent', -⟩ := ht
  obtain rfl : news = news' := List.append_cancel_right (hnews.symm.trans hnews')
  obtain ⟨replies, sent⟩ := s
  obtain ⟨replies', sent'⟩ := t
  rw [Session.mk.injEq]
  exact ⟨hreplies.symm.trans hreplies', hsent.trans hsent'.symm⟩

theorem Tracks.send (h : Tracks base bound credit s noted) (hc : c.touchesRows = true)
    {bound' credit' : Nat} (hbound : s.replies.tail.length < bound')
    (hcredit : credit + s.replies.tail.length ≤ credit' + s.replies.length) :
    Tracks base bound' credit' (send c s).2 (send c noted).2 := by
  obtain ⟨hreplies, -, news, hnews, hsent, hnotes⟩ := h
  have hnote := Command.isNote_of_touchesRows hc
  rw [(send_eq c s).1, (send_eq c noted).1, hreplies, hnews, hsent]
  refine ⟨rfl, hbound, c :: news, rfl, ?_, ?_⟩
  · rw [List.filter_cons_of_pos (by simp [hnote]), List.cons_append]
  · rw [List.countP_cons_of_neg (by simp [hnote])]
    dsimp only
    omega

theorem alike_send (hc : c.touchesRows = true) :
    Alike (Tracks base bound credit) (send c) (send c) := by
  intro s noted h
  have hresult := (send_eq c s).2 noted.sent
  rw [← h.replies] at hresult
  have htail : s.replies.tail.length ≤ s.replies.length := by simp
  exact ⟨hresult.symm, h.send hc (by have := h.left; omega) (by omega)⟩

/-- A reply that reports a deleted row is one less. -/
theorem Tracks.send_row (h : Tracks base (bound + 1) credit s noted) (hc : c.touchesRows = true)
    {result : RowSet} (hresult : (Run.send c s).1 = .ok result) (hrow : result.affected ≠ 0) :
    ∃ rest, credit = rest + 1 ∧ Tracks base bound rest (Run.send c s).2 (Run.send c noted).2 := by
  have hreply : s.replies ≠ [] := by
    intro hnone
    unfold Run.send at hresult
    rw [hnone] at hresult
    cases hresult
    exact hrow rfl
  have hleft := List.length_pos_iff.mpr hreply
  have htail := s.replies.length_tail
  obtain ⟨_, _, hcredit⟩ := h.sent
  refine ⟨credit - 1, by omega, h.send hc ?_ ?_⟩
  · have := h.left
    omega
  · omega

theorem Tracks.note (h : Tracks base bound credit s noted) :
    Tracks base (bound + 1) (credit + 1) s (note noted).2 := by
  obtain ⟨hreplies, hleft, news, hnews, hsent, hnotes⟩ := h
  refine ⟨hreplies, by omega, .raw ⟨"", []⟩ :: news, ?_, ?_, ?_⟩
  · rw [List.cons_append, ← hnews]
    rfl
  · rwa [List.filter_cons_of_neg (by simp [Command.isNote])]
  · rw [List.countP_cons_of_pos rfl]
    omega

theorem Tracks.mono (h : Tracks base bound credit s noted) :
    Tracks base (bound + 1) (credit + 1) s noted := by
  obtain ⟨hreplies, hleft, news, hnews, hsent, hnotes⟩ := h
  exact ⟨hreplies, by omega, news, hnews, hsent, by omega⟩

end Tracked

section Recursion

variable {base : List Command} {bound credit : Nat}

/-- How two deletes of a row end, of which one leaves notes. Either the row has not been deleted, or
it has, for one of the replies. -/
inductive Deleted (base : List Command) (bound : Nat) (id : Json) :
    Nat → Except Failure (List Json) → Session → Session → Prop
  | failed {credit : Nat} (g : Failure) {s noted : Session}
    (h : Tracks base (bound + 1) credit s noted) : Deleted base bound id credit (.error g) s noted
  | gone {credit : Nat} {s noted : Session} (h : Tracks base (bound + 1) credit s noted) :
    Deleted base bound id credit (.ok []) s noted
  | row {rest : Nat} {s noted : Session} (h : Tracks base bound rest s noted) :
    Deleted base bound id (rest + 1) (.ok [id]) s noted

variable (hdelete : ∀ credit model id,
  Alike (Tracks base bound credit) (delete model id) (delete' model id))

include hdelete

/-- Two deletes that spread alike while there are fewer replies left. -/
theorem deleted_deleteBy (model : String) (id : Json) :
    EndAlike (Tracks base (bound + 1) credit) (Deleted base bound id credit)
      (deleteBy r delete model id) (deleteBy r delete' model id) := by
  have hfailed : ∀ g s noted, Tracks base (bound + 1) credit s noted →
      Deleted base bound id credit (.error g) s noted := fun g _ _ => .failed g
  refine EndAlike.within ?_ ?_
  · refine EndAlike.bind (alike_ofExcept _) hfailed fun s => ?_
    have hread : Alike (Tracks base (bound + 1) credit) (ownedReferences s id)
        (ownedReferences s id) := alike_ownedReferences (fun _ => alike_send) s id
    refine EndAlike.bind hread hfailed fun owned => ?_
    have hrow : EndAlike (Tracks base (bound + 1) credit)
        (fun result t noted => Tracks base (bound + 1) credit t noted ∧
          ∀ x, result = .ok x → x.affected ≠ 0 →
            ∃ rest, credit = rest + 1 ∧ Tracks base bound rest t noted)
        (Run.send (.delete model [.equals s.primaryKey (.ofId id)]))
        (Run.send (.delete model [.equals s.primaryKey (.ofId id)])) := fun t noted h =>
      ⟨(alike_send rfl t noted h).1, (alike_send rfl t noted h).2, fun x => h.send_row rfl⟩
    refine hrow.bind (fun g t noted h => hfailed g t noted h.1) fun result => ?_
    split
    · exact fun t noted h => ⟨rfl, .gone h.1⟩
    · next hdeleted =>
      intro t noted h
      obtain ⟨rest, rfl, htracks⟩ := h.2 result rfl hdeleted
      have hcleanups := alike_cleanups (r := r) (fun _ => alike_send) (hdelete rest) s id owned
      have hignored := List.rel_map (fun _ _ hm => hm.ignoringFailure) hcleanups
      refine EndAlike.bind (alike_inOrder hignored) ?_ ?_ t noted htracks
      · exact fun g _ _ h => .failed g h.mono
      · exact fun _ _ _ h => ⟨rfl, .row h⟩
  · rintro _ _ _ (⟨g, h⟩ | h | h)
    · exact .failed _ h
    · exact .gone h
    · exact .row h

/-- A note from the one that leaves notes makes up for the reply. -/
theorem alike_noting (model : String) (id : Json) :
    Alike (Tracks base (bound + 1) credit) (deleteBy r delete model id)
      (noting (deleteBy r delete') model id) := by
  intro s noted h
  obtain ⟨hresult, hended⟩ := deleted_deleteBy (r := r) hdelete model id s noted h
  unfold noting
  rw [bind_apply]
  rcases hrun : deleteBy r delete' model id noted with ⟨result, t⟩
  rw [hrun] at hresult hended
  rw [show (deleteBy r delete model id s).1 = result from hresult] at hended ⊢
  generalize (deleteBy r delete model id s).2 = ended at hended ⊢
  cases hended with
  | failed g h => exact ⟨rfl, h⟩
  | gone h => exact ⟨rfl, h⟩
  | row h => exact ⟨rfl, h.note⟩

end Recursion

section Unrolled

variable {base : List Command} {bound credit : Nat}

/-- Deletes each of which spreads to the one before it are those that are unrolled, from as many on
as there are replies left: what is at the bottom of either is not called. -/
theorem alike_unrolled (chain : Nat → Delete) (hchain : ∀ n, chain (n + 1) = deleteBy r (chain n))
    (n depth : Nat) (hn : bound ≤ n) (hdepth : bound ≤ depth) (model : String) (id : Json) :
    Alike (Tracks base bound credit) (chain n model id) (unrolled r bottom depth model id) := by
  induction bound generalizing credit n depth model id with
  | zero => exact fun _ _ h => absurd h.left (Nat.not_lt_zero _)
  | succ bound ih =>
    obtain ⟨n, rfl⟩ := Nat.exists_eq_add_one_of_ne_zero (show n ≠ 0 by omega)
    obtain ⟨depth, rfl⟩ := Nat.exists_eq_add_one_of_ne_zero (show depth ≠ 0 by omega)
    rw [hchain]
    exact alike_noting (fun _ => ih n depth (by omega) (by omega)) model id

/-- The budget of a delete covers the replies that are left, wherever it starts. -/
theorem alike_deleteOne (depth : Nat) (hdepth : bound ≤ depth) (model : String) (id : Json) :
    Alike (Tracks base bound credit) (deleteOne r model id) (unrolled r bottom depth model id) := by
  intro s noted h
  have hleft := h.left
  have hbudget : Alike (Tracks base (s.replies.length + 1) credit)
      (deleteWithin r (s.replies.length + 1) model id) (unrolled r bottom depth model id) :=
    alike_unrolled (deleteWithin r) (fun _ => rfl) _ _ (Nat.le_refl _) (by omega) _ _
  obtain ⟨hresult, hended⟩ := hbudget s noted ⟨h.replies, Nat.lt_succ_self _, h.sent⟩
  exact ⟨hresult, hended.replies, Nat.lt_of_lt_of_le hended.left hleft, hended.sent⟩

/-- Two runs that are the same as one with notes are the same. -/
theorem eq_of_alike {α : Type} {m m' : Run α} (noted : Run α) {s : Session}
    (hm : Alike (Tracks s.sent (s.replies.length + 1) s.replies.length) m noted)
    (hm' : Alike (Tracks s.sent (s.replies.length + 1) s.replies.length) m' noted) :
    m s = m' s := by
  obtain ⟨hresult, hended⟩ := hm s s (tracks_self s)
  obtain ⟨hresult', hended'⟩ := hm' s s (tracks_self s)
  exact Prod.ext (hresult.trans hresult'.symm) (hended.unique hended')

/-- Deletes that spread to themselves are those within the budget. -/
theorem eq_deleteBy_iff (delete : Delete) :
    (∀ model id, delete model id = deleteBy r delete model id) ↔ delete = deleteOne r := by
  let bottom : Delete := fun _ _ => pure []
  constructor
  · intro hdelete
    funext model id s
    refine eq_of_alike (unrolled r bottom (s.replies.length + 1) model id) ?_ ?_
    · exact alike_unrolled (fun _ => delete) (fun _ => funext₂ hdelete) _ _
        (Nat.le_refl _) (Nat.le_refl _) model id
    · exact alike_deleteOne _ (Nat.le_refl _) model id
  · rintro rfl model id
    funext s
    refine eq_of_alike (unrolled r bottom (s.replies.length + 1) model id) ?_ ?_
    · exact alike_deleteOne _ (Nat.le_refl _) model id
    · exact alike_noting (fun _ => alike_deleteOne _ (Nat.le_refl _)) model id

/-- From a new session on, a run gives the same result, with the same replies left, and sends the
same, as a run with notes, whose notes are among the replies taken. -/
structure EndsAsNoted {α : Type} (replies : List Reply) (m noted : Run α) : Prop where
  result : (noted ⟨replies, []⟩).1 = (m ⟨replies, []⟩).1
  left : (noted ⟨replies, []⟩).2.replies = (m ⟨replies, []⟩).2.replies
  sent : ((noted ⟨replies, []⟩).2.sent.filter fun c => !c.isNote) = (m ⟨replies, []⟩).2.sent
  notes : (noted ⟨replies, []⟩).2.sent.countP Command.isNote + (m ⟨replies, []⟩).2.replies.length ≤
    replies.length

theorem endsAsNoted_of_alike {α : Type} {replies : List Reply} {m noted : Run α}
    (h : Alike (Tracks [] (replies.length + 1) replies.length) m noted) :
    EndsAsNoted replies m noted := by
  obtain ⟨hresult, hreplies, -, news, hnews, hsent, hnotes⟩ := h _ _ (tracks_self ⟨replies, []⟩)
  rw [List.append_nil] at hnews hsent
  subst hnews
  exact ⟨hresult.symm, hreplies, hsent.symm, hnotes⟩

end Unrolled

end Store

open Store in
/-- Deletes end, whatever the models: the delete that spreads to itself is one and only one. With
as many replies as there are, deletes inside of each other do not reach below one level more than
that, so that what is done there makes no difference; and no more deletes go on to what belongs to
their row than there are replies taken. So it is when links are removed. -/
theorem deletes_end (r : Registry) :
    (∀ delete : Delete,
      (∀ model id, delete model id = deleteBy r delete model id) ↔ delete = deleteOne r) ∧
    ∀ (bottom : Delete) (replies : List Reply) (more : Nat),
      let spread := unrolled r bottom (replies.length + 1 + more)
      (∀ model id, EndsAsNoted replies (deleteOne r model id) (spread model id)) ∧
      ∀ model owner field target, EndsAsNoted replies (removeRelation r model owner field target)
        (removeRelationBy r spread model owner field target) := by
  refine ⟨eq_deleteBy_iff, fun bottom replies more => ?_⟩
  intro spread
  have hspread : ∀ model id, Run.Alike (Tracks [] (replies.length + 1) replies.length)
      (deleteOne r model id) (spread model id) :=
    alike_deleteOne _ (Nat.le_add_right _ more)
  refine ⟨fun model id => endsAsNoted_of_alike (hspread model id), ?_⟩
  intro model owner field target
  exact endsAsNoted_of_alike
    (alike_removeRelationBy (fun _ => alike_send) hspread model owner field target)

end EntityStore
