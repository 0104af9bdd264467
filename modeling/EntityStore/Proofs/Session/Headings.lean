import EntityStore.Proofs.Session.Failures

/-!
Which headings an operation gives to what the server fails. An operation that goes on behind a
failure does not fail fast; what it reports in the end is still the reply to its last command. An
operation that is put together from others reports as they do.
-/
namespace EntityStore.Run

variable {α β : Type} {under under' : Category → Prop} {m : Run α} {f : α → Run β}

def Blames (under : Category → Prop) (taken : List Reply) (result : Except Failure α) : Prop :=
  ∀ g, result = .error g → g.OfServer →
    ∃ before f category, taken = before ++ [.failure f] ∧ under category ∧
      g = f.reportedAs category

def ReportsLast (under : Category → Prop) (m : Run α) : Prop :=
  ∀ s, ∃ cs, (m s).2 = s.after cs ∧ Blames under (s.answers cs.length) (m s).1

/-- In a new session, whatever the server replies, a failure of the server is reported as the reply
to the last command, as a failed connection or under one of the headings. -/
def ReportsUnder (under : Category → Prop) (m : Run α) : Prop :=
  ∀ replies g, (m ⟨replies, []⟩).1 = .error g → g.OfServer →
    ∃ i f category, i + 1 = (m ⟨replies, []⟩).2.sent.length ∧
      replies[i]? = some (.failure f) ∧ under category ∧ g = f.reportedAs category

namespace Blames

variable {before taken : List Reply} {result : Except Failure α}

theorem of_ok (x : α) : Blames under taken (.ok x : Except Failure α) :=
  fun _ h => nomatch h

theorem of_refusal {g : Failure} (hg : ¬ g.OfServer) :
    Blames under taken (.error g : Except Failure α) := by
  rintro _ ⟨⟩ hserver
  exact absurd hserver hg

theorem of_error {g : Failure} (h : Blames under taken (.error g : Except Failure α)) :
    Blames under taken (.error g : Except Failure β) := by
  rintro _ ⟨⟩ hserver
  exact h g rfl hserver

theorem prepend (h : Blames under taken result) : Blames under (before ++ taken) result := by
  intro g hg hserver
  obtain ⟨rows, f, category, rfl, hcategory, hreported⟩ := h g hg hserver
  exact ⟨before ++ rows, f, category, (List.append_assoc ..).symm, hcategory, hreported⟩

/-- The outermost operation gives the heading. -/
theorem within (h : Blames Category.Reports taken result) {category : Category}
    (hcategory : under category) :
    Blames under taken (result.mapError (Failure.within category)) := by
  intro g hg hserver
  cases result with
  | ok x => cases hg
  | error inner =>
    cases hg
    obtain ⟨before, f, reported, htaken, hreports, rfl⟩ :=
      h inner rfl (Failure.ofServer_within.mp hserver)
    exact ⟨before, f, category, htaken, hcategory, f.within_reportedAs hreports category⟩

end Blames

theorem Ends.blames {taken : List Reply} {result : Except Failure α} (h : Ends under taken result) :
    Blames under taken result := by
  cases h with
  | done _ x => exact .of_ok x
  | refused _ hg => exact .of_refusal hg
  | failed _ f hcategory =>
    rintro _ ⟨⟩ -
    exact ⟨_, f, _, rfl, hcategory, rfl⟩

section Composed

theorem FailsFast.reportsLast (hm : FailsFast under m) : ReportsLast under m := by
  intro s
  obtain ⟨cs, hsession, hends⟩ := hm s
  exact ⟨cs, hsession, hends.blames⟩

theorem ReportsLast.bind (hm : ReportsLast under m) (hf : ∀ x, ReportsLast under (f x)) :
    ReportsLast under (m >>= f) := by
  intro s
  obtain ⟨first, hfirst, hblames⟩ := hm s
  rw [bind_apply]
  rcases hms : m s with ⟨g | x, s'⟩
  · rw [hms] at hfirst hblames
    exact ⟨first, hfirst, hblames.of_error⟩
  · rw [hms] at hfirst
    obtain ⟨second, hsecond, hblames'⟩ := hf x s'
    have hfirst : s' = s.after first := hfirst
    subst hfirst
    refine ⟨second ++ first, ?_, ?_⟩
    · rw [hsecond, Session.after_append]
    · rw [Session.answers_append]
      exact hblames'.prepend

theorem reportsLast_check_bind {e : Except Failure α} (hrefusal : ∀ g, e = .error g → g.IsRefusal)
    (hf : ∀ x, e = .ok x → ReportsLast under (f x)) : ReportsLast under (ofExcept e >>= f) := by
  cases e with
  | error g => exact (failsFast_fail (hrefusal g rfl).ownWords).reportsLast
  | ok x => exact hf x rfl

theorem ReportsLast.within (hm : ReportsLast Category.Reports m) {category : Category}
    (hcategory : under category) : ReportsLast under (m.within category) := by
  intro s
  obtain ⟨cs, hsession, hblames⟩ := hm s
  rw [within_apply]
  exact ⟨cs, hsession, hblames.within hcategory⟩

/-- What is ignored is not reported. -/
theorem ReportsLast.ignoringFailure {m : Run Unit} (hm : ReportsLast under m) :
    ReportsLast under' (ignoringFailure m) := by
  intro s
  obtain ⟨cs, hsession, -⟩ := hm s
  exact ⟨cs, hsession, .of_ok ()⟩

theorem reportsLast_inOrder {ms : List (Run Unit)} (h : ∀ m ∈ ms, ReportsLast under m) :
    ReportsLast under (inOrder ms) := by
  induction ms with
  | nil => exact (failsFast_pure ()).reportsLast
  | cons m rest ih =>
    have hrest := ih fun x hx => h x (List.mem_cons_of_mem _ hx)
    exact (h m (List.mem_cons_self ..)).bind fun _ => hrest

end Composed

section Start

theorem ReportsLast.reportsUnder (hm : ReportsLast under m) : ReportsUnder under m := by
  intro replies g hg hserver
  obtain ⟨cs, hsession, hblames⟩ := hm ⟨replies, []⟩
  have hsent : (m ⟨replies, []⟩).2.sent = cs := by simp [hsession, Session.after]
  obtain ⟨before, f, category, htaken, hcategory, rfl⟩ := hblames g hg hserver
  have hlength := congrArg List.length htaken
  rw [Session.length_answers, List.length_append, List.length_singleton] at hlength
  refine ⟨before.length, f, category, by rw [hsent, hlength], ?_, hcategory, rfl⟩
  have hlast : (Session.answers ⟨replies, []⟩ cs.length)[before.length]? = some (.failure f) := by
    rw [htaken, List.getElem?_concat_length]
  exact (Session.failure_answers_iff.mp hlast).2

/-- A refused statement under another heading. -/
theorem ReportsUnder.under_of_statement (hm : ReportsUnder under m) {replies : List Reply}
    {category : Category} {message : String} (hcategory : category ≠ .connection)
    (h : (m ⟨replies, []⟩).1 = .error ⟨category, .server message⟩) : under category := by
  obtain ⟨_, f, reported, -, -, hunder, hreported⟩ := hm replies _ h ⟨message, rfl⟩
  cases f with
  | connection =>
    cases hreported
    exact absurd rfl hcategory
  | statement =>
    cases hreported
    exact hunder

/-- A command that is always sent fails the operation that fails fast. -/
theorem FailsFast.of_first_failure (hm : FailsFast under m) {c : Command} (hc : Emits c m)
    {s : Session} {failure : ExecutionFailure} (h : s.replies[0]? = some (.failure failure)) :
    ∃ category s', under category ∧ m s = (.error (failure.reportedAs category), s') := by
  obtain ⟨cs, hsession, hends⟩ := hm s
  obtain ⟨sent, hsent, hmem⟩ := hc s
  have hcs : 0 < cs.length := by
    rw [hsession] at hsent
    rw [List.append_cancel_right (show cs ++ s.sent = sent ++ s.sent from hsent)]
    exact List.length_pos_of_mem hmem
  obtain ⟨-, category, hcategory, hresult⟩ :=
    hends.of_failure (Session.failure_answers_iff.mpr ⟨hcs, h⟩)
  exact ⟨category, _, hcategory, Prod.ext hresult rfl⟩

end Start

end EntityStore.Run
