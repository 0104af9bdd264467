import EntityStore.Proofs.Json.Parser

/-!
How deep documents are. Of the containers of a document no more are open at once than may be, so no
value that is read is deeper.
-/
namespace EntityStore.Json

theorem depth_canonical_le (v : Json) : v.canonical.depth ≤ v.depth := by
  induction v using Json.induction with
  | null | bool | str => exact Nat.le_refl _
  | num n =>
    cases n with
    | int n => exact Nat.le_refl _
    | float x =>
      rw [canonical, ofFloat]
      split <;> exact Nat.le_refl _
  | arr items ih =>
    rw [canonical, canonicalItems_eq_map, depth, depth]
    refine Nat.succ_le_succ (depthOfItems_le_iff.mpr (List.forall_mem_map.mpr fun item hitem => ?_))
    exact (ih item hitem).trans (depthOfItems_le_iff.mp (Nat.le_refl _) item hitem)
  | obj members ih =>
    rw [canonical, canonicalMembers_eq_map, depth, depth]
    refine Nat.succ_le_succ (depthOfMembers_le_iff.mpr fun m hm => ?_)
    obtain ⟨member, hmember, rfl⟩ := List.mem_map.mp (Record.mem_ofMembers hm)
    exact (ih member hmember).trans (depthOfMembers_le_iff.mp (Nat.le_refl _) member hmember)

/-- A container may be open inside the frames, and the values fit into it. -/
def Fit (stack : List Frame) (vs : List Json) : Prop :=
  stack.length < maxDepth ∧ ∀ v ∈ vs, stack.length + 1 + v.depth ≤ maxDepth

def Shallow : List Frame → Prop
  | [] => True
  | .items done :: stack => Fit stack done ∧ Shallow stack
  | .members done _ :: stack => Fit stack (done.map Prod.snd) ∧ Shallow stack

/-- What has been read, where this comes next, is nowhere too deep. -/
def Within : Expect × List Frame → Prop
  | (.value, stack) => Shallow stack
  | (.firstItem, stack) => Fit stack [] ∧ Shallow stack
  | (.nextItem done, stack) => Fit stack done ∧ Shallow stack
  | (.firstKey done, stack) | (.key done, stack) | (.colon done _, stack)
  | (.nextMember done, stack) => Fit stack (done.map Prod.snd) ∧ Shallow stack
  | (.nothing v, _) => v.depth ≤ maxDepth

section Run

variable {e : Expect} {stack : List Frame} {t : Token} {ts : List Token} {v : Json}
  {r : Expect × List Frame}

theorem Shallow.length_le (h : Shallow stack) : stack.length ≤ maxDepth := by
  match stack, h with
  | [], _ => exact Nat.zero_le _
  | .items _ :: _, h | .members .. :: _, h => exact h.1.1

theorem within_finish (h : Shallow stack) (hv : stack.length + v.depth ≤ maxDepth) :
    Within (finish v stack) := by
  match stack, h with
  | [], _ =>
    change v.depth ≤ maxDepth
    simpa using hv
  | .items _ :: _, ⟨⟨hopen, hdone⟩, hstack⟩ =>
    exact ⟨⟨hopen, List.forall_mem_cons.mpr ⟨hv, hdone⟩⟩, hstack⟩
  | .members .. :: _, ⟨⟨hopen, hdone⟩, hstack⟩ =>
    exact ⟨⟨hopen, List.forall_mem_cons.mpr ⟨hv, hdone⟩⟩, hstack⟩

theorem Fit.depth_arr {done : List Json} (h : Fit stack done) :
    stack.length + (Json.arr done.reverse).depth ≤ maxDepth := by
  have hdone : depthOfItems done.reverse ≤ maxDepth - (stack.length + 1) :=
    depthOfItems_le_iff.mpr fun v hv => by
      have hv := h.2 v (List.mem_reverse.mp hv)
      omega
  have hopen := h.1
  rw [depth]
  omega

theorem Fit.depth_obj {done : List (String × Json)} (h : Fit stack (done.map Prod.snd)) :
    stack.length + (Json.obj done.reverse).depth ≤ maxDepth := by
  have hdone : depthOfMembers done.reverse ≤ maxDepth - (stack.length + 1) :=
    depthOfMembers_le_iff.mpr fun m hm => by
      have hm := h.2 m.2 (List.mem_map_of_mem (List.mem_reverse.mp hm))
      omega
  have hopen := h.1
  rw [depth]
  omega

/-- Inside as many containers as may be open no other one opens. -/
theorem enter_whole_eq_some (h : Shallow stack) (hr : enter (fun _ => true) e stack = some r) :
    r = (e, stack) ∧ Fit stack [] := by
  have hle := h.length_le
  refine ⟨(enter_eq_some hr).symm, Nat.lt_of_le_of_ne hle fun hfull => ?_, List.forall_mem_nil _⟩
  rw [enter_of_full hfull rfl] at hr
  cases hr

theorem within_startValue (h : Shallow stack)
    (hr : startValue (fun _ => true) stack t = some r) : Within r := by
  have hleaf : ∀ w : Json, w.depth = 0 → Within (finish w stack) := fun w hw =>
    within_finish h (by rw [hw]; exact h.length_le)
  cases t with
  | null | bool | num | str =>
    rw [← Option.some.inj hr]
    exact hleaf _ rfl
  | hugeNumber | brokenString => cases hr
  | openArray | openObject =>
    obtain ⟨rfl, hfit⟩ := enter_whole_eq_some h hr
    exact ⟨hfit, h⟩
  | _ => cases hr

theorem within_startMember {done : List (String × Json)} (h : Fit stack (done.map Prod.snd))
    (hstack : Shallow stack) (hr : startMember (fun _ => true) done stack t = some r) :
    Within r := by
  cases t with
  | str s =>
    rw [← Option.some.inj hr]
    exact ⟨h, hstack⟩
  | _ => cases hr

theorem within_step (h : Within (e, stack)) (hr : step (fun _ => true) e stack t = some r) :
    Within r := by
  unfold step at hr
  split at hr
  case h_1 => exact within_startValue h hr
  case h_3 =>
    have hitems : Shallow (.items [] :: _) := h
    exact within_startValue hitems hr
  case h_5 | h_6 => exact within_startMember h.1 h.2 hr
  case h_12 => cases hr
  all_goals rw [← Option.some.inj hr]
  case h_2 | h_9 => exact within_finish h.2 h.1.depth_arr
  case h_4 | h_11 => exact within_finish h.2 h.1.depth_obj
  all_goals exact h

theorem depth_le_of_run (h : Within (e, stack)) (hrun : run (fun _ => true) e stack ts = some v) :
    v.depth ≤ maxDepth := by
  induction ts generalizing e stack with
  | nil =>
    cases e with
    | nothing w =>
      obtain ⟨-, rfl⟩ := run_nothing hrun
      exact h
    | _ => cases hrun
  | cons t us ih =>
    simp only [run, Option.bind_eq_bind, Option.bind_eq_some_iff] at hrun
    obtain ⟨⟨e', stack'⟩, hstep, hrest⟩ := hrun
    exact ih (within_step h hstep) hrest

end Run

theorem depth_le_of_parse? {s : String} {v : Json} (h : parse? s = some v) :
    v.depth ≤ maxDepth := by
  obtain ⟨ts, w, -, -, hrun, rfl⟩ := parse?_eq_some h
  have hstart : Within (.value, []) := True.intro
  exact (depth_canonical_le w).trans (depth_le_of_run hstart hrun)

end EntityStore.Json
