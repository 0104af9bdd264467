import EntityStore.Json.Parser
import EntityStore.Proofs.Json.Token

/-!
Values read back from their tokens. The tokens of a value lead from where it begins to where it is
complete, with its numbers as they are read, whatever containers are open around it, as long as they
and its own are not too many.
-/
namespace EntityStore.Json

mutual

def depth : Json → Nat
  | .arr items => depthOfItems items + 1
  | .obj members => depthOfMembers members + 1
  | _ => 0

def depthOfItems : List Json → Nat
  | [] => 0
  | v :: rest => max (depth v) (depthOfItems rest)

def depthOfMembers : List (String × Json) → Nat
  | [] => 0
  | (_, v) :: rest => max (depth v) (depthOfMembers rest)

end

section Depth

variable {n : Nat}

theorem depthOfItems_le_iff {items : List Json} :
    depthOfItems items ≤ n ↔ ∀ v ∈ items, v.depth ≤ n := by
  induction items with
  | nil => exact iff_of_true (Nat.zero_le n) (List.forall_mem_nil _)
  | cons first rest ih => rw [depthOfItems, Nat.max_le, ih, List.forall_mem_cons]

theorem depthOfMembers_le_iff {members : List (String × Json)} :
    depthOfMembers members ≤ n ↔ ∀ m ∈ members, m.2.depth ≤ n := by
  induction members with
  | nil => exact iff_of_true (Nat.zero_le n) (List.forall_mem_nil _)
  | cons first rest ih => rw [depthOfMembers, Nat.max_le, ih, List.forall_mem_cons]

end Depth

section Reread

variable {read : Number → Option Number}

mutual

/-- The value with its numbers as they are read, if they are and no more containers are open at once
than there is room for. -/
def reread? (read : Number → Option Number) : Json → Nat → Option Json
  | .null, _ => some .null
  | .bool b, _ => some (.bool b)
  | .num n, _ => (read n).map .num
  | .str s, _ => some (.str s)
  | .arr _, 0 => none
  | .arr items, room + 1 => (rereadItems? read items room).map .arr
  | .obj _, 0 => none
  | .obj members, room + 1 => (rereadMembers? read members room).map .obj

def rereadItems? (read : Number → Option Number) : List Json → Nat → Option (List Json)
  | [], _ => some []
  | v :: rest, room => do
    let w ← reread? read v room
    (rereadItems? read rest room).map (w :: ·)

def rereadMembers? (read : Number → Option Number) :
    List (String × Json) → Nat → Option (List (String × Json))
  | [], _ => some []
  | (k, v) :: rest, room => do
    let w ← reread? read v room
    (rereadMembers? read rest room).map ((k, w) :: ·)

end

theorem rereadItems?_eq_self {items : List Json} {room : Nat}
    (h : ∀ v ∈ items, reread? read v room = some v) :
    rereadItems? read items room = some items := by
  induction items with
  | nil => rfl
  | cons v rest ih =>
    obtain ⟨hv, hrest⟩ := List.forall_mem_cons.mp h
    simp [rereadItems?, hv, ih hrest]

theorem rereadMembers?_eq_self {members : List (String × Json)} {room : Nat}
    (h : ∀ m ∈ members, reread? read m.2 room = some m.2) :
    rereadMembers? read members room = some members := by
  induction members with
  | nil => rfl
  | cons m rest ih =>
    obtain ⟨hm, hrest⟩ := List.forall_mem_cons.mp h
    simp [rereadMembers?, hm, ih hrest]

/-- Where there is room enough and each number is read as it is, so is the value. -/
theorem reread?_eq_self {v : Json} {room : Nat} (hread : ∀ n ∈ v.numbers, read n = some n)
    (hdepth : v.depth ≤ room) : reread? read v room = some v := by
  induction v using Json.induction generalizing room with
  | null | bool | str => rfl
  | num n => rw [reread?, hread n (List.mem_singleton_self n), Option.map_some]
  | arr items ih =>
    obtain ⟨inner, rfl⟩ := Nat.exists_eq_succ_of_ne_zero (Nat.ne_zero_of_lt hdepth)
    have hdepths := depthOfItems_le_iff.mp (Nat.le_of_succ_le_succ hdepth)
    rw [numbers, numbersOfItems_eq_flatMap] at hread
    rw [reread?, rereadItems?_eq_self fun v hv => ih v hv (fun n hn =>
      hread n (List.mem_flatMap.mpr ⟨v, hv, hn⟩)) (hdepths v hv), Option.map_some]
  | obj members ih =>
    obtain ⟨inner, rfl⟩ := Nat.exists_eq_succ_of_ne_zero (Nat.ne_zero_of_lt hdepth)
    have hdepths := depthOfMembers_le_iff.mp (Nat.le_of_succ_le_succ hdepth)
    rw [numbers, numbersOfMembers_eq_flatMap] at hread
    rw [reread?, rereadMembers?_eq_self fun m hm => ih m hm (fun n hn =>
      hread n (List.mem_flatMap.mpr ⟨m, hm, hn⟩)) (hdepths m hm), Option.map_some]

end Reread

/-- Every part of the value is wanted, where it stands at the end of the path. -/
inductive Wanted (wanted : List Step → Bool) : List Step → Json → Prop
  | leaf {path : List Step} {v : Json} : wanted path = true → v.depth = 0 → Wanted wanted path v
  | arr {path : List Step} {items : List Json} : wanted path = true →
    (∀ i v, items[i]? = some v → Wanted wanted (.item i :: path) v) →
    Wanted wanted path (.arr items)
  | obj {path : List Step} {members : List (String × Json)} : wanted path = true →
    (∀ m ∈ members, Wanted wanted (.member m.1 :: path) m.2) → Wanted wanted path (.obj members)

theorem Wanted.here {wanted : List Step → Bool} {path : List Step} {v : Json}
    (h : Wanted wanted path v) : wanted path = true := by
  cases h with
  | leaf here => exact here
  | arr here => exact here
  | obj here => exact here

theorem Wanted.of_all {wanted : List Step → Bool} (hall : ∀ path, wanted path = true) (v : Json) :
    ∀ path, Wanted wanted path v := by
  induction v using Json.induction with
  | null | bool | num | str => exact fun path => .leaf (hall path) rfl
  | arr items ih =>
    exact fun path => .arr (hall path) fun i v hv => ih v (List.mem_of_getElem? hv) _
  | obj members ih => exact fun path => .obj (hall path) fun m hm => ih m hm _

section Run

variable {wanted : List Step → Bool} {read : Number → Option Number} {stack : List Frame}
  {ts : List Token}

theorem enter_of_lt (h : stack.length < maxDepth) (e : Expect) :
    enter wanted e stack = some (e, stack) := by
  have hnone : stack.drop (maxDepth - 1) = [] :=
    List.drop_eq_nil_of_le (Nat.le_sub_one_of_lt h)
  rw [enter, hnone]

theorem enter_of_full (h : stack.length = maxDepth)
    (hwanted : wanted (stack.map Frame.step) = true) (e : Expect) :
    enter wanted e stack = none := by
  have hlast : (stack.drop (maxDepth - 1)).length = 1 := by
    rw [List.length_drop, h]
    rfl
  obtain ⟨frame, hframe⟩ := List.length_eq_one_iff.mp hlast
  rw [enter, hframe]
  exact if_pos hwanted

/-- The tokens of a value lead from where it begins inside the frames to where it is complete, with
its numbers as they are read, or to nothing. -/
def Completes (wanted : List Step → Bool) (read : Number → Option Number) (v : Json)
    (stack : List Frame) : Prop :=
  ∀ ts, run wanted .value stack (v.tokensOf.map (Token.reread read) ++ ts) =
    (v.reread? read (maxDepth - stack.length)).bind fun w =>
      run wanted (finish w stack).1 (finish w stack).2 ts

/-- The first item may also be the end of the array, which no value begins with. -/
theorem run_firstItem (v : Json) (ts : List Token) :
    run wanted .firstItem stack (v.tokensOf.map (Token.reread read) ++ ts) =
      run wanted .value (.items [] :: stack) (v.tokensOf.map (Token.reread read) ++ ts) := by
  have hfirst : ∃ t us, v.tokensOf.map (Token.reread read) = t :: us ∧ t ≠ .closeArray := by
    cases v with
    | num n =>
      refine ⟨_, _, rfl, ?_⟩
      rw [Token.reread]
      cases read n <;> simp [Token.ofNumber]
    | _ => exact ⟨_, _, rfl, by simp [Token.reread]⟩
  obtain ⟨t, us, htokens, hopen⟩ := hfirst
  have hstep : step wanted .firstItem stack t = step wanted .value (.items [] :: stack) t := by
    cases t with
    | closeArray => exact absurd rfl hopen
    | _ => rfl
  rw [htokens, List.cons_append, run, run, hstep]

/-- The items behind those that are done, up to the end of the array. -/
theorem run_items {items : List Json} (done : List Json)
    (h : ∀ i v, items[i]? = some v → ∀ before : List Json, before.length = done.length + i →
      Completes wanted read v (.items before :: stack)) :
    run wanted (.nextItem done) stack
      ((items.map fun v => v.tokensOf.map (Token.reread read)).flatMap (Token.comma :: ·) ++
        .closeArray :: ts) =
    (rereadItems? read items (maxDepth - (stack.length + 1))).bind fun ws =>
      run wanted (finish (.arr (done.reverse ++ ws)) stack).1
        (finish (.arr (done.reverse ++ ws)) stack).2 ts := by
  induction items generalizing done with
  | nil =>
    rw [rereadItems?, Option.bind_some, List.append_nil]
    rfl
  | cons v rest ih =>
    have hv : Completes wanted read v (.items done :: stack) := h 0 v rfl done rfl
    have hrest : ∀ w, ∀ i x, rest[i]? = some x → ∀ before : List Json,
        before.length = (w :: done).length + i →
        Completes wanted read x (.items before :: stack) := by
      intro w i x hx before hbefore
      refine h (i + 1) x hx before ?_
      rw [hbefore, List.length_cons]
      omega
    rw [List.map_cons, List.flatMap_cons, List.append_assoc, List.cons_append]
    refine (hv _).trans ?_
    rw [rereadItems?, List.length_cons]
    cases reread? read v (maxDepth - (stack.length + 1)) with
    | none => rfl
    | some w =>
      have hlist : ∀ ws : List Json, done.reverse ++ w :: ws = (w :: done).reverse ++ ws := by simp
      rw [Option.bind_some]
      refine (ih (w :: done) (hrest w)).trans ?_
      cases rereadItems? read rest (maxDepth - (stack.length + 1)) with
      | none => rfl
      | some ws => simp only [Option.bind_eq_bind, Option.bind_some, Option.map_some, hlist]

/-- All items, from behind the bracket that opens the array. -/
theorem run_array {items : List Json}
    (h : ∀ i v, items[i]? = some v → ∀ before : List Json, before.length = i →
      Completes wanted read v (.items before :: stack)) :
    run wanted .firstItem stack
      (separated (items.map fun v => v.tokensOf.map (Token.reread read)) ++ .closeArray :: ts) =
    (rereadItems? read items (maxDepth - (stack.length + 1))).bind fun ws =>
      run wanted (finish (.arr ws) stack).1 (finish (.arr ws) stack).2 ts := by
  cases items with
  | nil => rfl
  | cons v rest =>
    have hrest : ∀ (w : Json) i x, rest[i]? = some x → ∀ before : List Json,
        before.length = [w].length + i → Completes wanted read x (.items before :: stack) := by
      intro w i x hx before hbefore
      exact h (i + 1) x hx before (hbefore.trans (Nat.add_comm ..))
    rw [List.map_cons, separated, List.append_assoc, run_firstItem, h 0 v rfl [] rfl,
      rereadItems?, List.length_cons]
    cases reread? read v (maxDepth - (stack.length + 1)) with
    | none => rfl
    | some w =>
      rw [Option.bind_some]
      refine (run_items [w] (hrest w)).trans ?_
      cases rereadItems? read rest (maxDepth - (stack.length + 1)) <;> rfl

theorem run_members {members : List (String × Json)}
    (h : ∀ m ∈ members, ∀ before, Completes wanted read m.2 (.members before m.1 :: stack))
    (done : List (String × Json)) :
    run wanted (.nextMember done) stack
      ((members.map fun m => .str m.1 :: .colon :: m.2.tokensOf.map (Token.reread read)).flatMap
        (Token.comma :: ·) ++ .closeObject :: ts) =
    (rereadMembers? read members (maxDepth - (stack.length + 1))).bind fun ws =>
      run wanted (finish (.obj (done.reverse ++ ws)) stack).1
        (finish (.obj (done.reverse ++ ws)) stack).2 ts := by
  induction members generalizing done with
  | nil =>
    rw [rereadMembers?, Option.bind_some, List.append_nil]
    rfl
  | cons m rest ih =>
    obtain ⟨hm, hrest⟩ := List.forall_mem_cons.mp h
    obtain ⟨k, v⟩ := m
    rw [List.map_cons, List.flatMap_cons, List.append_assoc, List.cons_append]
    refine (hm done _).trans ?_
    rw [rereadMembers?, List.length_cons]
    cases reread? read v (maxDepth - (stack.length + 1)) with
    | none => rfl
    | some w =>
      have hlist : ∀ ws : List (String × Json),
          done.reverse ++ (k, w) :: ws = ((k, w) :: done).reverse ++ ws := by simp
      rw [Option.bind_some]
      refine (ih hrest ((k, w) :: done)).trans ?_
      cases rereadMembers? read rest (maxDepth - (stack.length + 1)) with
      | none => rfl
      | some ws => simp only [Option.bind_eq_bind, Option.bind_some, Option.map_some, hlist]

theorem run_object {members : List (String × Json)}
    (h : ∀ m ∈ members, ∀ before, Completes wanted read m.2 (.members before m.1 :: stack)) :
    run wanted (.firstKey []) stack
      (separated (members.map fun m =>
        .str m.1 :: .colon :: m.2.tokensOf.map (Token.reread read)) ++ .closeObject :: ts) =
    (rereadMembers? read members (maxDepth - (stack.length + 1))).bind fun ws =>
      run wanted (finish (.obj ws) stack).1 (finish (.obj ws) stack).2 ts := by
  cases members with
  | nil => rfl
  | cons m rest =>
    obtain ⟨hm, hrest⟩ := List.forall_mem_cons.mp h
    obtain ⟨k, v⟩ := m
    rw [List.map_cons, separated, List.append_assoc]
    refine (hm [] _).trans ?_
    rw [rereadMembers?, List.length_cons]
    cases reread? read v (maxDepth - (stack.length + 1)) with
    | none => rfl
    | some w =>
      rw [Option.bind_some]
      refine (run_members hrest [(k, w)]).trans ?_
      cases rereadMembers? read rest (maxDepth - (stack.length + 1)) <;> rfl

/-- A container is read behind its bracket, if there is room for it. -/
theorem completes_container {v : Json} {e : Expect} {t : Token} {us : List Token}
    (htokens : v.tokensOf.map (Token.reread read) = t :: us)
    (hstart : startValue wanted stack t = enter wanted e stack) (hnone : v.reread? read 0 = none)
    (hstack : stack.length ≤ maxDepth) (hwanted : wanted (stack.map Frame.step) = true)
    (hrun : stack.length < maxDepth → ∀ ts, run wanted e stack (us ++ ts) =
      (v.reread? read (maxDepth - (stack.length + 1) + 1)).bind fun w =>
        run wanted (finish w stack).1 (finish w stack).2 ts) :
    Completes wanted read v stack := by
  intro ts
  rw [htokens, List.cons_append, run, step, hstart]
  rcases Nat.eq_or_lt_of_le hstack with hfull | hlt
  · rw [enter_of_full hfull hwanted, hfull, Nat.sub_self, hnone]
    rfl
  · have hroom : maxDepth - stack.length = maxDepth - (stack.length + 1) + 1 := by omega
    rw [enter_of_lt hlt, hroom]
    exact hrun hlt ts

/-- Where all of a value is wanted, it is read just when there is room for its containers and each
of its numbers is read. -/
theorem completes (v : Json) : ∀ stack : List Frame, stack.length ≤ maxDepth →
    Wanted wanted (stack.map Frame.step) v → Completes wanted read v stack := by
  induction v using Json.induction with
  | null | bool | str => exact fun stack _ _ ts => rfl
  | num n =>
    intro stack _ hwanted ts
    have hhuge : passOver wanted stack (finish .null stack) = none := if_pos hwanted.here
    rw [tokensOf, List.map_singleton, Token.reread, List.singleton_append, run, step, reread?]
    cases read n with
    | some m => rfl
    | none =>
      rw [Token.ofNumber, startValue, hhuge]
      rfl
  | arr items ih =>
    intro stack hstack hwanted
    have htokens : (arr items).tokensOf.map (Token.reread read) = .openArray ::
        (separated (items.map fun v => v.tokensOf.map (Token.reread read)) ++ [.closeArray]) := by
      rw [tokensOf, tokensOfItems_eq_map, List.map_cons, List.map_append, map_reread_separated,
        List.map_map]
      rfl
    refine completes_container htokens rfl rfl hstack hwanted.here fun hlt ts => ?_
    rw [List.append_assoc, List.singleton_append, reread?, Option.bind_map]
    refine run_array ?_
    rintro i v hv before rfl
    refine ih v (List.mem_of_getElem? hv) _ hlt ?_
    cases hwanted with
    | leaf _ hdepth => cases hdepth
    | arr _ hparts => exact hparts _ v hv
  | obj members ih =>
    intro stack hstack hwanted
    have htokens : (obj members).tokensOf.map (Token.reread read) = .openObject ::
        (separated (members.map fun m =>
          .str m.1 :: .colon :: m.2.tokensOf.map (Token.reread read)) ++ [.closeObject]) := by
      rw [tokensOf, tokensOfMembers_eq_map, List.map_cons, List.map_append, map_reread_separated,
        List.map_map]
      rfl
    refine completes_container htokens rfl rfl hstack hwanted.here fun hlt ts => ?_
    rw [List.append_assoc, List.singleton_append, reread?, Option.bind_map]
    refine run_object fun m hm before => ih m hm _ hlt ?_
    cases hwanted with
    | leaf _ hdepth => cases hdepth
    | obj _ hparts => exact hparts m hm

/-- What the text of a value is read as, if all of it is wanted. -/
theorem parseWanted?_text {v : Json}
    (hlexes : Lexes v.text.toList (v.tokensOf.map (Token.reread read)) [])
    (hwanted : Wanted wanted [] v) : parseWanted? wanted v.text = v.reread? read maxDepth := by
  have hcompletes : Completes wanted read v [] := completes v [] (Nat.zero_le _) hwanted
  have hrun := hcompletes []
  rw [List.append_nil] at hrun
  simp only [parseWanted?, hlexes.tokens?_eq, Option.bind_eq_bind, Option.bind_some]
  refine hrun.trans ?_
  rw [List.length_nil, Nat.sub_zero]
  cases v.reread? read maxDepth <;> rfl

end Run

section Documents

variable {wanted : List Step → Bool} {e : Expect} {stack : List Frame} {t : Token} {ts : List Token}
  {v w : Json}

theorem step_brokenString (e : Expect) (stack : List Frame) :
    step (fun _ => true) e stack .brokenString = none := by
  cases e <;> rfl

/-- A string that names no character is part of no document that is read whole. -/
theorem brokenString_notMem_of_run (h : run (fun _ => true) e stack ts = some v) :
    .brokenString ∉ ts := by
  induction ts generalizing e stack with
  | nil => exact List.not_mem_nil
  | cons t us ih =>
    cases t with
    | brokenString =>
      rw [run, step_brokenString] at h
      cases h
    | _ =>
      simp only [run, Option.bind_eq_bind, Option.bind_eq_some_iff] at h
      obtain ⟨⟨e', stack'⟩, -, hrun⟩ := h
      exact List.not_mem_cons_of_ne_of_not_mem nofun (ih hrun)

theorem passOver_eq_some {next r : Expect × List Frame}
    (h : passOver wanted stack next = some r) : next = r := by
  unfold passOver at h
  split at h
  · cases h
  · exact Option.some.inj h

theorem enter_eq_some {r : Expect × List Frame} (h : enter wanted e stack = some r) :
    (e, stack) = r := by
  unfold enter at h
  split at h
  · exact passOver_eq_some h
  · exact Option.some.inj h

def InContainer : Expect × List Frame → Prop
  | (.nothing (.arr _), _) | (.nothing (.obj _), _) => True
  | (.nothing _, _) => False
  | (.value, stack) => stack ≠ []
  | _ => True

theorem inContainer_finish_cons (v : Json) (frame : Frame) (stack : List Frame) :
    InContainer (finish v (frame :: stack)) := by
  cases frame <;> trivial

theorem inContainer_finish_arr (items : List Json) (stack : List Frame) :
    InContainer (finish (.arr items) stack) := by
  cases stack with
  | nil => trivial
  | cons frame stack => exact inContainer_finish_cons _ frame stack

theorem inContainer_finish_obj (members : List (String × Json)) (stack : List Frame) :
    InContainer (finish (.obj members) stack) := by
  cases stack with
  | nil => trivial
  | cons frame stack => exact inContainer_finish_cons _ frame stack

/-- Inside a container nothing that begins leaves it. -/
theorem inContainer_startValue {frame : Frame} {r : Expect × List Frame}
    (h : startValue wanted (frame :: stack) t = some r) : InContainer r := by
  cases t with
  | null | bool | num | str =>
    rw [← Option.some.inj h]
    exact inContainer_finish_cons _ frame stack
  | hugeNumber | brokenString =>
    rw [← passOver_eq_some h]
    exact inContainer_finish_cons _ frame stack
  | openArray | openObject =>
    rw [← enter_eq_some h]
    trivial
  | _ => cases h

theorem inContainer_startMember {done : List (String × Json)} {r : Expect × List Frame}
    (h : startMember wanted done stack t = some r) : InContainer r := by
  cases t with
  | str s =>
    rw [← Option.some.inj h]
    trivial
  | brokenString =>
    rw [← passOver_eq_some h]
    trivial
  | _ => cases h

theorem inContainer_step {r : Expect × List Frame} (hin : InContainer (e, stack))
    (h : step wanted e stack t = some r) : InContainer r := by
  unfold step at h
  split at h
  case h_1 =>
    obtain ⟨frame, stack, rfl⟩ := List.exists_cons_of_ne_nil hin
    exact inContainer_startValue h
  case h_3 => exact inContainer_startValue h
  case h_5 | h_6 => exact inContainer_startMember h
  case h_12 => cases h
  all_goals rw [← Option.some.inj h]
  case h_2 | h_9 => exact inContainer_finish_arr _ _
  case h_4 | h_11 => exact inContainer_finish_obj _ _
  all_goals first | trivial | exact List.cons_ne_nil _ _

theorem step_nothing (v : Json) (stack : List Frame) (t : Token) :
    step wanted (.nothing v) stack t = none := by
  cases t <;> rfl

theorem run_nothing (h : run wanted (.nothing v) stack ts = some w) : ts = [] ∧ w = v := by
  cases ts with
  | nil =>
    cases stack with
    | nil => exact ⟨rfl, (Option.some.inj h).symm⟩
    | cons frame stack => cases h
  | cons t us =>
    rw [run, step_nothing] at h
    cases h

/-- No text is read from inside a container. -/
theorem run_ne_str (hin : InContainer (e, stack)) (x : String) :
    run wanted e stack ts ≠ some (.str x) := by
  induction ts generalizing e stack with
  | nil =>
    intro h
    cases e with
    | nothing v =>
      obtain ⟨-, rfl⟩ := run_nothing h
      exact hin
    | _ => cases h
  | cons t us ih =>
    intro h
    simp only [run, Option.bind_eq_bind, Option.bind_eq_some_iff] at h
    obtain ⟨⟨e', stack'⟩, hstep, hrun⟩ := h
    exact ih (inContainer_step hin hstep) hrun

/-- A document that is read as a text is a string and nothing else. -/
theorem eq_str_of_run {x : String} (h : run wanted .value [] ts = some (.str x)) :
    ts = [.str x] := by
  cases ts with
  | nil => cases h
  | cons t us =>
    simp only [run, step, Option.bind_eq_bind, Option.bind_eq_some_iff] at h
    obtain ⟨next, hstart, hrun⟩ := h
    cases t with
    | null | bool | num =>
      cases hstart
      cases (run_nothing hrun).2
    | str y =>
      cases hstart
      obtain ⟨rfl, hx⟩ := run_nothing hrun
      cases hx
      rfl
    | hugeNumber | brokenString =>
      cases passOver_eq_some hstart
      cases (run_nothing hrun).2
    | openArray | openObject =>
      simp only [startValue] at hstart
      rw [← enter_eq_some hstart] at hrun
      refine absurd hrun (run_ne_str ?_ x)
      trivial
    | _ => cases hstart

theorem eq_str_of_canonical {x : String} (h : v.canonical = .str x) : v = .str x := by
  cases v with
  | num n =>
    cases n with
    | int n => cases h
    | float x =>
      simp only [canonical, ofFloat] at h
      split at h <;> cases h
  | str s => exact h
  | _ => cases h

end Documents

/-- A text that is a document has tokens, which are all read. -/
theorem parse?_eq_some {s : String} {v : Json} (h : parse? s = some v) :
    ∃ ts w, tokens? s.toList = some ts ∧ .brokenString ∉ ts ∧
      run (fun _ => true) .value [] ts = some w ∧ w.canonical = v := by
  simp only [parse?, parseWritten?, parseWanted?, Option.map_eq_some_iff, Option.bind_eq_bind,
    Option.bind_eq_some_iff] at h
  obtain ⟨w, ⟨ts, htokens, hrun⟩, hv⟩ := h
  exact ⟨ts, w, htokens, brokenString_notMem_of_run hrun, hrun, hv⟩

theorem parse?_congr {s t : String} (h : tokens? s.toList = tokens? t.toList) :
    parse? s = parse? t := by
  rw [parse?, parse?, parseWritten?, parseWanted?, parseWanted?, h]

/-- A value whose containers are not too many is what its text is read as. -/
theorem IsWhole.parse?_text {v : Json} (hv : v.IsWhole) (hdepth : v.depth ≤ maxDepth) :
    parse? v.text = some v := by
  have hlexes := hv.lexes [] rfl
  rw [← map_reread_some v.tokensOf] at hlexes
  have hwritten : parseWritten? v.text = some v :=
    (parseWanted?_text hlexes (.of_all (fun _ => rfl) v [])).trans
      (reread?_eq_self (fun _ _ => rfl) hdepth)
  rw [parse?, hwritten, Option.map_some, hv.isCanonical.canonical_eq]

end EntityStore.Json
