import EntityStore.Proofs.Checks
import EntityStore.Proofs.Session.Sends
import Mathlib.Data.List.TakeDrop

/-!
How operations fail. An operation that fails fast sends nothing behind a command that the server
fails, and reports this failure in the words of the server. An operation that is put together from
others, one behind the other, fails as they do.
-/
namespace EntityStore

def Reply.isRows : Reply → Bool
  | rows _ => true
  | failure _ => false

/-- How an operation of a category reports a command that the server fails: under its own heading,
unless the server was not reached, and in the words of the server. -/
def ExecutionFailure.reportedAs (category : Category) : ExecutionFailure → Failure
  | connection message => ⟨.connection, .server message⟩
  | statement message => ⟨category, .server message⟩

def Category.Reports (c : Category) : Prop :=
  c.ofOperation = true

theorem Category.reports_query : query.Reports :=
  rfl

theorem Category.reports_insert : insert.Reports :=
  rfl

namespace ExecutionFailure

theorem toFailure_eq_reportedAs (f : ExecutionFailure) : f.toFailure = f.reportedAs .query := by
  cases f <;> rfl

/-- The outermost operation gives the heading. -/
theorem within_reportedAs {inner : Category} (h : inner.Reports) (category : Category)
    (f : ExecutionFailure) : (f.reportedAs inner).within category = f.reportedAs category := by
  cases f with
  | connection message => rfl
  | statement message => exact if_pos h

end ExecutionFailure

theorem Failure.ofServer_within {category : Category} {g : Failure} :
    (g.within category).OfServer ↔ g.OfServer := by
  unfold within
  split <;> rfl

namespace Session

def answers (s : Session) (n : Nat) : List Reply :=
  s.replies.takeD n (.rows {})

def after (s : Session) (cs : List Command) : Session :=
  ⟨s.replies.drop cs.length, cs ++ s.sent⟩

theorem after_append (s : Session) (first second : List Command) :
    s.after (second ++ first) = (s.after first).after second := by
  simp only [after, List.length_append, List.drop_drop, List.append_assoc, Nat.add_comm]

theorem length_answers (s : Session) (n : Nat) : (s.answers n).length = n :=
  List.takeD_length ..

theorem answers_append (s : Session) (first second : List Command) :
    s.answers (second ++ first).length =
      s.answers first.length ++ (s.after first).answers second.length := by
  obtain ⟨replies, sent⟩ := s
  simp only [answers, after, List.length_append, Nat.add_comm second.length]
  generalize first.length = n
  induction n generalizing replies with
  | zero => simp
  | succ n ih =>
    have hnext := ih replies.tail
    simp only [Nat.succ_add, List.takeD_succ, List.cons_append, hnext, List.drop_tail]

/-- The failures among the replies to the next commands are those of the script: a server that has
no more replies carries every command out. -/
theorem failure_answers_iff {s : Session} {i n : Nat} {f : ExecutionFailure} :
    (s.answers n)[i]? = some (.failure f) ↔ i < n ∧ s.replies[i]? = some (.failure f) := by
  obtain ⟨replies, sent⟩ := s
  simp only [answers]
  induction n generalizing i replies with
  | zero => simp
  | succ n ih =>
    rw [List.takeD_succ]
    cases i with
    | zero => cases replies <;> simp
    | succ i => simp [ih replies.tail]

end Session

namespace Run

variable {α β : Type} {under : Category → Prop} {m : Run α} {f : α → Run β}

/-- How an operation ends behind these replies. Either nothing has failed, and the operation goes
through or is refused in the store's own words; or the last command has failed, and the operation
reports that under one of the headings. -/
inductive Ends (under : Category → Prop) {α : Type} : List Reply → Except Failure α → Prop
  | done {taken : List Reply} (hrows : ∀ reply ∈ taken, reply.isRows = true) (x : α) :
    Ends under taken (.ok x)
  | refused {taken : List Reply} (hrows : ∀ reply ∈ taken, reply.isRows = true) {g : Failure}
      (hg : ¬ g.OfServer) : Ends under taken (.error g)
  | failed {before : List Reply} (hrows : ∀ reply ∈ before, reply.isRows = true)
      (f : ExecutionFailure) {category : Category} (hcategory : under category) :
    Ends under (before ++ [.failure f]) (.error (f.reportedAs category))

def FailsFast (under : Category → Prop) (m : Run α) : Prop :=
  ∀ s, ∃ cs, (m s).2 = s.after cs ∧ Ends under (s.answers cs.length) (m s).1

def FailsLast (under : Category → Prop) (m : Run α) : Prop :=
  ∀ s g, (m s).1 = .error g →
    ∃ cs, (m s).2 = s.after cs ∧ Ends under (s.answers cs.length) (.error g : Except Failure α)

namespace Ends

variable {before taken : List Reply} {result : Except Failure α}

theorem rows_of_ok {x : α} (h : Ends under taken (.ok x)) :
    ∀ reply ∈ taken, reply.isRows = true := by
  cases h with
  | done hrows => exact hrows

/-- More replies in front, as long as nothing of them has failed. -/
theorem prepend (hbefore : ∀ reply ∈ before, reply.isRows = true) (h : Ends under taken result) :
    Ends under (before ++ taken) result := by
  cases h with
  | done hrows x => exact .done (List.forall_mem_append.mpr ⟨hbefore, hrows⟩) x
  | refused hrows hg => exact .refused (List.forall_mem_append.mpr ⟨hbefore, hrows⟩) hg
  | failed hrows f hcategory =>
    rw [← List.append_assoc]
    exact .failed (List.forall_mem_append.mpr ⟨hbefore, hrows⟩) f hcategory

/-- A failed command is the last one, and is reported. -/
theorem of_failure (h : Ends under taken result) {i : Nat} {f : ExecutionFailure}
    (hf : taken[i]? = some (.failure f)) :
    i + 1 = taken.length ∧
      ∃ category, under category ∧ result = .error (f.reportedAs category) := by
  have hno : ∀ {rows : List Reply}, (∀ reply ∈ rows, reply.isRows = true) →
      rows[i]? ≠ some (.failure f) := by
    intro rows hrows hmem
    cases hrows _ (List.mem_of_getElem? hmem)
  cases h with
  | done hrows x => exact absurd hf (hno hrows)
  | refused hrows hg => exact absurd hf (hno hrows)
  | @failed before hrows last category hcategory =>
    by_cases hi : i < before.length
    · rw [List.getElem?_append_left hi] at hf
      exact absurd hf (hno hrows)
    · rw [List.getElem?_append_right (by omega), List.getElem?_singleton] at hf
      have hlast : i = before.length := by
        by_contra hne
        rw [if_neg (by omega)] at hf
        cases hf
      subst hlast
      simp only [Nat.sub_self, ↓reduceIte, Option.some.injEq, Reply.failure.injEq] at hf
      subst hf
      exact ⟨by simp, category, hcategory, rfl⟩

/-- A failure of the server is that of the last command. -/
theorem of_ofServer {g : Failure} (h : Ends under taken (.error g : Except Failure α))
    (hg : g.OfServer) : ∃ f, taken[taken.length - 1]? = some (.failure f) := by
  generalize hresult : (Except.error g : Except Failure α) = result at h
  cases h with
  | done => cases hresult
  | refused _ hown =>
    cases hresult
    exact absurd hg hown
  | failed _ f => exact ⟨f, by simp⟩

/-- A failure is one, whatever the operation would have given. -/
theorem error_of_error {g : Failure} (h : Ends under taken (.error g : Except Failure α)) :
    Ends under taken (.error g : Except Failure β) := by
  generalize hresult : (Except.error g : Except Failure α) = result at h
  cases h with
  | done => cases hresult
  | refused hrows hg =>
    cases hresult
    exact .refused hrows hg
  | failed hrows f hcategory =>
    cases hresult
    exact .failed hrows f hcategory

/-- Every failed command goes under the heading, whichever operation has reported it. -/
theorem within (h : Ends Category.Reports taken result) {category : Category}
    (hcategory : under category) :
    Ends under taken (result.mapError (Failure.within category)) := by
  cases h with
  | done hrows x => exact .done hrows x
  | refused hrows hg => exact .refused hrows (mt Failure.ofServer_within.mp hg)
  | failed hrows f hinner =>
    rw [Except.mapError, ExecutionFailure.within_reportedAs hinner]
    exact .failed hrows f hcategory

end Ends

section Primitive

/-- An operation that leaves the session alone fails at most in the store's own words. -/
theorem failsFast_of_silent (hsession : ∀ s, (m s).2 = s)
    (hrefusal : ∀ s g, (m s).1 = .error g → ¬ g.OfServer) : FailsFast under m := by
  intro s
  refine ⟨[], hsession s, ?_⟩
  have hnone : ∀ reply ∈ s.answers 0, reply.isRows = true := by simp [Session.answers]
  cases hresult : (m s).1 with
  | ok x => exact .done hnone x
  | error g => exact .refused hnone (hrefusal s g hresult)

theorem failsFast_pure (x : α) : FailsFast under (pure x : Run α) :=
  failsFast_of_silent (fun _ => rfl) fun _ _ h => nomatch h

theorem failsFast_fail {g : Failure} (h : ¬ g.OfServer) : FailsFast under (fail g : Run α) := by
  refine failsFast_of_silent (fun _ => rfl) fun s other hother => ?_
  cases hother
  exact h

theorem failsFast_send (c : Command) (h : under .query) : FailsFast under (send c) := by
  intro s
  obtain ⟨replies, sent⟩ := s
  refine ⟨[c], ?_⟩
  cases replies with
  | nil => exact ⟨rfl, .done (by simp [Session.answers, Reply.isRows]) _⟩
  | cons reply rest =>
    cases reply with
    | rows result => exact ⟨rfl, .done (by simp [Session.answers, Reply.isRows]) _⟩
    | failure f =>
      refine ⟨rfl, ?_⟩
      show Ends under ([] ++ [.failure f]) (.error f.toFailure : Except Failure RowSet)
      rw [f.toFailure_eq_reportedAs]
      exact .failed (by simp) f h

end Primitive

section Composed

theorem FailsFast.bind (hm : FailsFast under m) (hf : ∀ x, FailsFast under (f x)) :
    FailsFast under (m >>= f) := by
  intro s
  obtain ⟨first, hfirst, hends⟩ := hm s
  rw [bind_apply]
  rcases hms : m s with ⟨g | x, s'⟩
  · rw [hms] at hfirst hends
    exact ⟨first, hfirst, hends.error_of_error⟩
  · rw [hms] at hfirst hends
    obtain ⟨second, hsecond, hends'⟩ := hf x s'
    have hfirst : s' = s.after first := hfirst
    subst hfirst
    refine ⟨second ++ first, ?_, ?_⟩
    · rw [hsecond, Session.after_append]
    · rw [Session.answers_append]
      exact hends'.prepend hends.rows_of_ok

/-- What comes behind a check runs on what the check lets pass. -/
theorem failsFast_check_bind {e : Except Failure α} (hrefusal : ∀ g, e = .error g → g.IsRefusal)
    (hf : ∀ x, e = .ok x → FailsFast under (f x)) : FailsFast under (ofExcept e >>= f) := by
  cases e with
  | error g => exact failsFast_fail (hrefusal g rfl).ownWords
  | ok x => exact hf x rfl

/-- The session is that of the operation, and a failure is put under the heading. -/
theorem within_apply (category : Category) (m : Run α) (s : Session) :
    (m.within category) s = ((m s).1.mapError (Failure.within category), (m s).2) := by
  unfold Run.within
  rcases m s with ⟨_ | _, _⟩ <;> rfl

/-- All failed commands of an operation are reported under its heading. -/
theorem FailsFast.within (hm : FailsFast Category.Reports m) {category : Category}
    (hcategory : under category) : FailsFast under (m.within category) := by
  intro s
  obtain ⟨cs, hsession, hends⟩ := hm s
  rw [within_apply]
  exact ⟨cs, hsession, hends.within hcategory⟩

theorem failsFast_inOrder {ms : List (Run Unit)} (h : ∀ m ∈ ms, FailsFast under m) :
    FailsFast under (inOrder ms) := by
  induction ms with
  | nil => exact failsFast_pure ()
  | cons m rest ih =>
    have hrest := ih fun x hx => h x (List.mem_cons_of_mem _ hx)
    exact (h m (List.mem_cons_self ..)).bind fun _ => hrest

end Composed

section Last

theorem FailsFast.failsLast (hm : FailsFast under m) : FailsLast under m := by
  intro s g hg
  obtain ⟨cs, hsession, hends⟩ := hm s
  exact ⟨cs, hsession, hg ▸ hends⟩

/-- Operations that never fail may do so. -/
theorem failsLast_of_goesOn (h : ∀ s, ∃ x, (m s).1 = .ok x) : FailsLast under m := by
  intro s g hg
  obtain ⟨x, hx⟩ := h s
  rw [hx] at hg
  cases hg

theorem failsLast_check_bind {e : Except Failure α} (hrefusal : ∀ g, e = .error g → g.IsRefusal)
    (hf : ∀ x, e = .ok x → FailsLast under (f x)) : FailsLast under (ofExcept e >>= f) := by
  cases e with
  | error g => exact (failsFast_fail (hrefusal g rfl).ownWords).failsLast
  | ok x => exact hf x rfl

theorem FailsLast.within (hm : FailsLast Category.Reports m) {category : Category}
    (hcategory : under category) : FailsLast under (m.within category) := by
  intro s g hg
  rw [within_apply] at hg ⊢
  cases hresult : (m s).1 with
  | ok x =>
    rw [hresult] at hg
    cases hg
  | error inner =>
    rw [hresult] at hg
    cases hg
    obtain ⟨cs, hsession, hends⟩ := hm s inner hresult
    exact ⟨cs, hsession, hends.within hcategory⟩

/-- What never fails may follow. -/
theorem FailsLast.bind_goesOn (hm : FailsLast under m) (hf : ∀ x s, ∃ y, (f x s).1 = .ok y) :
    FailsLast under (m >>= f) := by
  intro s g hg
  rw [bind_apply] at hg ⊢
  rcases hms : m s with ⟨g' | x, s'⟩
  · rw [hms] at hg
    cases hg
    obtain ⟨cs, hsession, hends⟩ := hm s g (by rw [hms])
    rw [hms] at hsession
    exact ⟨cs, hsession, hends.error_of_error⟩
  · rw [hms] at hg
    obtain ⟨y, hy⟩ := hf x s'
    rw [show (f x s').1 = .error g from hg] at hy
    cases hy

theorem FailsFast.bind_failsLast (hm : FailsFast under m) (hf : ∀ x, FailsLast under (f x)) :
    FailsLast under (m >>= f) := by
  intro s g hg
  obtain ⟨first, hfirst, hends⟩ := hm s
  rw [bind_apply] at hg ⊢
  rcases hms : m s with ⟨g' | x, s'⟩
  · rw [hms] at hfirst hends hg
    cases hg
    exact ⟨first, hfirst, hends.error_of_error⟩
  · rw [hms] at hfirst hends hg
    obtain ⟨second, hsecond, hends'⟩ := hf x s' g hg
    have hfirst : s' = s.after first := hfirst
    subst hfirst
    refine ⟨second ++ first, ?_, ?_⟩
    · rw [hsecond, Session.after_append]
    · rw [Session.answers_append]
      exact hends'.prepend hends.rows_of_ok

end Last

section Start

/-- From a new session on, the replies are those to all that is sent. -/
theorem FailsFast.ends (hm : FailsFast under m) (replies : List Reply) :
    Ends under (Session.answers ⟨replies, []⟩ (m ⟨replies, []⟩).2.sent.length)
      (m ⟨replies, []⟩).1 := by
  obtain ⟨cs, hsession, hends⟩ := hm ⟨replies, []⟩
  have hsent : (m ⟨replies, []⟩).2.sent = cs := by simp [hsession, Session.after]
  rwa [hsent]

theorem FailsLast.ends (hm : FailsLast under m) {replies : List Reply} {g : Failure}
    (hg : (m ⟨replies, []⟩).1 = .error g) :
    Ends under (Session.answers ⟨replies, []⟩ (m ⟨replies, []⟩).2.sent.length)
      (.error g : Except Failure α) := by
  obtain ⟨cs, hsession, hends⟩ := hm ⟨replies, []⟩ g hg
  have hsent : (m ⟨replies, []⟩).2.sent = cs := by simp [hsession, Session.after]
  rwa [hsent]

end Start

end Run

end EntityStore
