import EntityStore.Proofs.Session.Failures
import Mathlib.Data.List.Forall2

/-!
What one run of an operation sends, in the order in which it is sent. A run that is put together
from others sends what these send, one behind the other.
-/
namespace EntityStore.Run

variable {α β ι : Type} {P : Command → Prop} {m : Run α} {f : α → Run β} {s s' : Session}

/-- From this session on, the operation sends these commands, in this order. -/
def Issues (m : Run α) (s : Session) (commands : List Command) : Prop :=
  (m s).2.sent = commands.reverse ++ s.sent

section Single

variable {commands first second : List Command}

theorem Sends.exists_issues (hm : Sends P m) (s : Session) :
    ∃ commands, Issues m s commands ∧ ∀ c ∈ commands, P c := by
  obtain ⟨cs, hcs, hP⟩ := hm s
  refine ⟨cs.reverse, ?_, fun c hc => hP c (List.mem_reverse.mp hc)⟩
  rw [Issues, List.reverse_reverse]
  exact hcs

/-- The operation sends nothing else. -/
theorem Issues.unique (h : Issues m s first) (h' : Issues m s second) : first = second := by
  unfold Issues at h h'
  rw [h, List.append_left_inj, List.reverse_inj] at h'
  exact h'

theorem issues_of_silent (h : (m s).2 = s) : Issues m s [] := by
  rw [Issues, h]
  rfl

theorem issues_send (c : Command) (s : Session) : Issues (send c) s [c] := by
  unfold Issues send
  split <;> rfl

/-- A command that has gone through has taken the next reply. -/
theorem send_ok {c : Command} {result : RowSet} (h : send c s = (.ok result, s')) :
    s.replies[0]?.getD (.rows {}) = .rows result ∧ s' = s.after [c] := by
  obtain ⟨_ | ⟨_ | _, rest⟩, sent⟩ := s <;> cases h <;> exact ⟨rfl, rfl⟩

theorem issues_within {category : Category} :
    Issues (m.within category) s commands ↔ Issues m s commands := by
  rw [Issues, Issues, within_snd]

theorem bind_of_ok {x : α} (hms : m s = (.ok x, s')) : (m >>= f) s = f x s' := by
  rw [bind_apply, hms]

/-- What follows begins where the first operation ends. -/
theorem Issues.bind {x : α} (hm : Issues m s first) (hms : m s = (.ok x, s'))
    (hf : Issues (f x) s' second) : Issues (m >>= f) s (first ++ second) := by
  rw [Issues, hms] at hm
  rw [Issues, bind_of_ok hms, hf, hm, List.reverse_append, List.append_assoc]

/-- What only looks at a result adds nothing. -/
theorem Issues.bind_silent (hm : Issues m s commands) (hf : ∀ x s', (f x s').2 = s') :
    Issues (m >>= f) s commands := by
  rcases hms : m s with ⟨g | x, s'⟩
  · rw [Issues, hms] at hm
    rw [Issues, bind_of_error hms]
    exact hm
  · rw [← List.append_nil commands]
    exact hm.bind hms (issues_of_silent (hf x s'))

/-- What may follow, if the first operation does not fail, is what the second sends. -/
theorem Issues.bind_sends (hm : Issues m s commands) (hf : ∀ x, Sends P (f x)) :
    ∃ others, Issues (m >>= f) s (commands ++ others) ∧ ∀ c ∈ others, P c := by
  rcases hms : m s with ⟨g | x, s'⟩
  · refine ⟨[], ?_, by simp⟩
    rw [Issues, hms] at hm
    rw [Issues, bind_of_error hms, List.append_nil]
    exact hm
  · obtain ⟨others, hothers, hP⟩ := (hf x).exists_issues s'
    exact ⟨others, hm.bind hms hothers, hP⟩

/-- Nothing follows a failure. -/
theorem Issues.bind_error {g : Failure} (hm : Issues m s first) (hms : m s = (.error g, s')) :
    Issues (m >>= f) s first := by
  rw [Issues, hms] at hm
  rw [Issues, bind_of_error hms]
  exact hm

end Single

section Several

/-- The lists that go through one behind the other go through as one. -/
theorem inOrder_append (ms ns : List (Run Unit)) :
    inOrder (ms ++ ns) = (do inOrder ms; inOrder ns) := by
  induction ms with
  | nil => rfl
  | cons m rest ih =>
    rw [List.cons_append, inOrder, inOrder, ih]
    exact (bind_assoc _ _ _).symm

/-- Operations that go through one behind the other each send their part. -/
theorem issues_inOrder {R : ι → List Command → Prop} {run : ι → Run Unit} {xs : List ι}
    (h : ∀ x ∈ xs, ∀ s, (run x s).1 = .ok () → ∃ part, Issues (run x) s part ∧ R x part)
    (hok : (inOrder (xs.map run) s).1 = .ok ()) :
    ∃ parts, Issues (inOrder (xs.map run)) s parts.flatten ∧ List.Forall₂ R xs parts := by
  induction xs generalizing s with
  | nil => exact ⟨[], issues_of_silent rfl, .nil⟩
  | cons x rest ih =>
    obtain ⟨⟨⟩, s', hfirst, hrest, -⟩ := bind_ok hok
    obtain ⟨part, hpart, hx⟩ := h x (List.mem_cons_self ..) s (by rw [hfirst])
    obtain ⟨parts, hparts, hxs⟩ := ih (fun y hy => h y (List.mem_cons_of_mem _ hy)) hrest
    exact ⟨part :: parts, hpart.bind hfirst hparts, .cons hx hxs⟩

theorem issues_inOrder_flatMap {part : ι → List Command} {run : ι → Run Unit} {xs : List ι}
    (h : ∀ x ∈ xs, ∀ s, (run x s).1 = .ok () → Issues (run x) s (part x))
    (hok : (inOrder (xs.map run) s).1 = .ok ()) :
    Issues (inOrder (xs.map run)) s (xs.flatMap part) := by
  obtain ⟨parts, hissues, hparts⟩ := issues_inOrder (R := fun x p => part x = p)
    (fun x hx s hx' => ⟨_, h x hx s hx', rfl⟩) hok
  have hmap : xs.map part = parts := by
    rw [← List.forall₂_eq_eq_eq, List.forall₂_map_left_iff]
    exact hparts
  rw [List.flatMap_def, hmap]
  exact hissues

end Several

end EntityStore.Run
