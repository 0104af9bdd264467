import EntityStore.Session

/-!
What an operation sends, whatever the server replies. An operation that is put together from others
sends what they send.
-/
namespace EntityStore.Run

variable {α β : Type} {P : Command → Prop}

/-- The commands sent by the operation all have the property, and those sent before stay. -/
def Sends (P : Command → Prop) (m : Run α) : Prop :=
  ∀ s, ∃ cs, (m s).2.sent = cs ++ s.sent ∧ ∀ c ∈ cs, P c

section Primitive

/-- An operation that leaves the session alone sends nothing. -/
theorem sends_of_silent {m : Run α} (h : ∀ s, (m s).2 = s) : Sends P m := by
  intro s
  refine ⟨[], ?_, by simp⟩
  rw [h, List.nil_append]

theorem sends_pure (x : α) : Sends P (pure x : Run α) :=
  sends_of_silent fun _ => rfl

theorem sends_fail (f : Failure) : Sends P (fail f : Run α) :=
  sends_of_silent fun _ => rfl

theorem sends_ofExcept (e : Except Failure α) : Sends P (ofExcept e) :=
  sends_of_silent fun _ => rfl

theorem sends_get : Sends P (get : Run Session) :=
  sends_of_silent fun _ => rfl

theorem sends_send {c : Command} (h : P c) : Sends P (send c) := by
  intro s
  refine ⟨[c], ?_, by simpa using h⟩
  unfold send
  split <;> rfl

end Primitive

section Composed

theorem Sends.mono {Q : Command → Prop} {m : Run α} (hm : Sends P m) (h : ∀ c, P c → Q c) :
    Sends Q m := by
  intro s
  obtain ⟨cs, hcs, hP⟩ := hm s
  exact ⟨cs, hcs, fun c hc => h c (hP c hc)⟩

/-- The second operation runs where the first one ends, unless that fails. -/
theorem bind_apply (m : Run α) (f : α → Run β) (s : Session) :
    (m >>= f) s = match m s with
      | (.ok x, s') => f x s'
      | (.error e, s') => (.error e, s') := by
  show (ExceptT.bind m f) s = _
  simp only [ExceptT.bind, ExceptT.mk, bind, StateT.bind]
  rcases m s with ⟨_ | _, _⟩ <;> rfl

/-- What fails first fails the whole. -/
theorem bind_of_error {m : Run α} {f : α → Run β} {s s' : Session} {g : Failure}
    (h : m s = (.error g, s')) : (m >>= f) s = (.error g, s') := by
  rw [bind_apply, h]

theorem Sends.bind {m : Run α} {f : α → Run β} (hm : Sends P m) (hf : ∀ x, Sends P (f x)) :
    Sends P (m >>= f) := by
  intro s
  obtain ⟨first, hfirst, hfirstP⟩ := hm s
  rw [bind_apply]
  rcases hms : m s with ⟨_ | x, s'⟩
  · rw [hms] at hfirst
    exact ⟨first, hfirst, hfirstP⟩
  · obtain ⟨second, hsecond, hsecondP⟩ := hf x s'
    rw [hms] at hfirst
    refine ⟨second ++ first, ?_, ?_⟩
    · rw [hsecond, hfirst, List.append_assoc]
    · intro c hc
      rcases List.mem_append.mp hc with hc | hc
      · exact hsecondP c hc
      · exact hfirstP c hc

/-- What comes behind a check runs on what the check lets pass. -/
theorem sends_ofExcept_bind {e : Except Failure α} {f : α → Run β}
    (h : ∀ x, e = .ok x → Sends P (f x)) : Sends P (ofExcept e >>= f) := by
  cases e with
  | error failure => exact sends_fail failure
  | ok x => exact h x rfl

theorem Sends.within {m : Run α} (hm : Sends P m) (category : Category) :
    Sends P (m.within category) := by
  intro s
  obtain ⟨cs, hcs, hP⟩ := hm s
  refine ⟨cs, ?_, hP⟩
  unfold Run.within
  rcases hms : m s with ⟨_ | _, _⟩ <;> rw [hms] at hcs <;> exact hcs

theorem Sends.ignoringFailure {m : Run Unit} (hm : Sends P m) : Sends P (ignoringFailure m) :=
  hm

theorem sends_inOrder {ms : List (Run Unit)} (h : ∀ m ∈ ms, Sends P m) : Sends P (inOrder ms) := by
  induction ms with
  | nil => exact sends_pure ()
  | cons m rest ih =>
    have hrest := ih fun x hx => h x (List.mem_cons_of_mem _ hx)
    exact (h m (List.mem_cons_self ..)).bind fun _ => hrest

theorem sends_sendAll {cs : List Command} (h : ∀ c ∈ cs, P c) : Sends P (sendAll cs) := by
  induction cs with
  | nil => exact sends_pure ()
  | cons c rest ih =>
    have hrest := ih fun x hx => h x (List.mem_cons_of_mem _ hx)
    exact (sends_send (h c (List.mem_cons_self ..))).bind fun _ => hrest

end Composed

section Kept

/-- What was sent stays sent. -/
theorem Sends.mem {m : Run α} (hm : Sends P m) {s : Session} {c : Command} (hc : c ∈ s.sent) :
    c ∈ (m s).2.sent := by
  obtain ⟨cs, hcs, -⟩ := hm s
  rw [hcs]
  exact List.mem_append_right cs hc

theorem mem_sent_bind {m : Run α} {f : α → Run β} (hf : ∀ x, Sends P (f x)) {s : Session}
    {c : Command} (hc : c ∈ (m s).2.sent) : c ∈ ((m >>= f) s).2.sent := by
  rw [bind_apply]
  rcases hms : m s with ⟨_ | x, s'⟩
  · rwa [hms] at hc
  · rw [hms] at hc
    exact (hf x).mem hc

theorem mem_sent_send (c : Command) (s : Session) : c ∈ (send c s).2.sent := by
  unfold send
  split <;> exact List.mem_cons_self ..

/-- What goes through as a whole goes through in both parts. -/
theorem bind_ok {m : Run α} {f : α → Run β} {s : Session} {y : β}
    (h : ((m >>= f) s).1 = .ok y) :
    ∃ x s', m s = (.ok x, s') ∧ (f x s').1 = .ok y ∧ (m >>= f) s = f x s' := by
  rw [bind_apply] at h ⊢
  rcases hms : m s with ⟨_ | x, s'⟩
  · rw [hms] at h
    cases h
  · rw [hms] at h
    exact ⟨x, s', rfl, h, rfl⟩

/-- A check that passes leaves what follows it. -/
theorem ofExcept_ok_bind (x : α) (f : α → Run β) : (ofExcept (.ok x) >>= f) = f x :=
  rfl

theorem within_snd (category : Category) (m : Run α) (s : Session) :
    (m.within category s).2 = (m s).2 := by
  unfold Run.within
  rcases m s with ⟨_ | _, _⟩ <;> rfl

theorem within_of_error {category : Category} {m : Run α} {s s' : Session} {g : Failure}
    (h : m s = (.error g, s')) : m.within category s = (.error (g.within category), s') := by
  unfold Run.within
  rw [h]

theorem within_ok {category : Category} {m : Run α} {s : Session} {x : α}
    (h : (m.within category s).1 = .ok x) : (m s).1 = .ok x := by
  unfold Run.within at h
  rcases hms : m s with ⟨_ | _, _⟩ <;> rw [hms] at h <;> cases h
  rfl

/-- Where all go through, each does, and what it has sent stays sent. -/
theorem inOrder_ok {ms : List (Run Unit)} (hms : ∀ m ∈ ms, Sends P m) {s : Session}
    (h : (inOrder ms s).1 = .ok ()) {m : Run Unit} (hm : m ∈ ms) :
    ∃ s', (m s').1 = .ok () ∧ ∀ c ∈ (m s').2.sent, c ∈ (inOrder ms s).2.sent := by
  induction ms generalizing s with
  | nil => cases hm
  | cons first rest ih =>
    obtain ⟨⟨⟩, s', hfirst, hrest, heq⟩ := bind_ok h
    have hothers := fun x hx => hms x (List.mem_cons_of_mem _ hx)
    rw [show inOrder (first :: rest) s = inOrder rest s' from heq]
    rcases List.mem_cons.mp hm with rfl | hm
    · refine ⟨s, by rw [hfirst], fun c hc => ?_⟩
      rw [hfirst] at hc
      exact (sends_inOrder hothers).mem hc
    · exact ih hothers hrest hm

end Kept

section Emitted

variable {c : Command} {m : Run α}

/-- Whatever the server replies, the command is among those that the operation sends. -/
def Emits (c : Command) (m : Run α) : Prop :=
  ∀ s, ∃ cs, (m s).2.sent = cs ++ s.sent ∧ c ∈ cs

theorem emits_send (c : Command) : Emits c (send c) := by
  intro s
  refine ⟨[c], ?_, List.mem_singleton_self c⟩
  unfold send
  split <;> rfl

/-- What follows takes nothing back. -/
theorem Emits.bind {f : α → Run β} (hm : Emits c m) (hf : ∀ x, Sends P (f x)) :
    Emits c (m >>= f) := by
  intro s
  obtain ⟨first, hfirst, hc⟩ := hm s
  rw [bind_apply]
  rcases hms : m s with ⟨_ | x, s'⟩
  · rw [hms] at hfirst
    exact ⟨first, hfirst, hc⟩
  · rw [hms] at hfirst
    obtain ⟨second, hsecond, -⟩ := hf x s'
    refine ⟨second ++ first, ?_, List.mem_append_right second hc⟩
    rw [hsecond, hfirst, List.append_assoc]

theorem Emits.within (hm : Emits c m) (category : Category) : Emits c (m.within category) := by
  intro s
  rw [within_snd]
  exact hm s

/-- An operation whose failure is ignored leaves the others to run. -/
theorem inOrder_ignoringFailure_cons (m : Run Unit) (rest : List (Run Unit)) (s : Session) :
    inOrder ((m :: rest).map ignoringFailure) s = inOrder (rest.map ignoringFailure) (m s).2 := by
  have hfirst : ignoringFailure m s = (.ok (), (m s).2) := rfl
  rw [List.map_cons, inOrder, bind_apply, hfirst]

/-- Operations whose failures are ignored always go through. -/
theorem inOrder_ignoringFailure (ms : List (Run Unit)) (s : Session) :
    (inOrder (ms.map ignoringFailure) s).1 = .ok () := by
  induction ms generalizing s with
  | nil => rfl
  | cons m rest ih =>
    rw [inOrder_ignoringFailure_cons]
    exact ih (m s).2

/-- Where failures are ignored, none of the operations keeps another from sending. -/
theorem emits_inOrder_ignoringFailure {ms : List (Run Unit)} (hms : ∀ m ∈ ms, Sends P m)
    {m : Run Unit} (hm : m ∈ ms) (hemits : Emits c m) :
    Emits c (inOrder (ms.map ignoringFailure)) := by
  induction ms with
  | nil => cases hm
  | cons first rest ih =>
    intro s
    have hothers := fun x hx => hms x (List.mem_cons_of_mem _ hx)
    rw [inOrder_ignoringFailure_cons]
    rcases List.mem_cons.mp hm with rfl | hm
    · obtain ⟨cs, hcs, hc⟩ := hemits s
      have hrest : ∀ x ∈ rest.map ignoringFailure, Sends P x :=
        List.forall_mem_map.mpr fun x hx => (hothers x hx).ignoringFailure
      obtain ⟨more, hmore, -⟩ := sends_inOrder hrest (m s).2
      refine ⟨more ++ cs, ?_, List.mem_append_right more hc⟩
      rw [hmore, hcs, List.append_assoc]
    · obtain ⟨cs, hcs, -⟩ := hms first (List.mem_cons_self ..) s
      obtain ⟨more, hmore, hc⟩ := ih hothers hm (first s).2
      refine ⟨more ++ cs, ?_, List.mem_append_left cs hc⟩
      rw [hmore, hcs, List.append_assoc]

end Emitted

/-- From a new session on, nothing else is sent. -/
theorem Sends.sent {m : Run α} (hm : Sends P m) (replies : List Reply) :
    ∀ c ∈ (m ⟨replies, []⟩).2.sent, P c := by
  obtain ⟨cs, hcs, hP⟩ := hm ⟨replies, []⟩
  rw [hcs, List.append_nil]
  exact hP

end EntityStore.Run
