import EntityStore.Proofs.Json.Parser
import EntityStore.Proofs.Json.Scan
import EntityStore.Stored
import Mathlib

/-!
Documents with raw control characters in their strings. A stored text that is no document is read
once more with all its control characters escaped, those between the tokens among them. So raw
characters in strings are read as their escapes are where no control character stands outside the
strings, and where one does, the text stays a text.
-/
namespace EntityStore.Json

/--
A text with escapes of control characters inside its strings replaced by the characters, which may
be any of them. Both texts begin inside a string or outside.
-/
inductive Unescapes : Bool → List Char → List Char → Prop
  | nil (inside : Bool) : Unescapes inside [] []
  | outside {c : Char} {cs ds : List Char} : c ≠ '"' → Unescapes false cs ds →
    Unescapes false (c :: cs) (c :: ds)
  | opening {cs ds : List Char} : Unescapes true cs ds → Unescapes false ('"' :: cs) ('"' :: ds)
  | closing {cs ds : List Char} : Unescapes false cs ds → Unescapes true ('"' :: cs) ('"' :: ds)
  | inside {c : Char} {cs ds : List Char} : c ≠ '"' → c ≠ '\\' → Unescapes true cs ds →
    Unescapes true (c :: cs) (c :: ds)
  | escape {c : Char} {cs ds : List Char} : Unescapes true cs ds →
    Unescapes true ('\\' :: c :: cs) ('\\' :: c :: ds)
  | letter {l c : Char} {cs ds : List Char} : plainEscape? l = some c → c.toNat < 0x20 →
    Unescapes true cs ds → Unescapes true ('\\' :: l :: cs) (c :: ds)
  | number {a b x y c : Char} {cs ds : List Char} : hexQuad? a b x y = some c.toNat →
    c.toNat < 0x20 → Unescapes true cs ds →
    Unescapes true ('\\' :: 'u' :: a :: b :: x :: y :: cs) (c :: ds)

def outer : Bool → List Char → List Char
  | _, [] => []
  | true, '"' :: cs => outer false cs
  | true, '\\' :: _ :: cs => outer true cs
  | true, _ :: cs => outer true cs
  | false, '"' :: cs => outer true cs
  | false, c :: cs => c :: outer false cs

/-- Whether no control character stands inside a string and no backslash outside. -/
def IsStrict : Bool → List Char → Prop
  | _, [] => True
  | true, '"' :: cs => IsStrict false cs
  | true, '\\' :: c :: cs => ¬ c.toNat < 0x20 ∧ IsStrict true cs
  | true, c :: cs => ¬ c.toNat < 0x20 ∧ IsStrict true cs
  | false, '"' :: cs => IsStrict true cs
  | false, c :: cs => c ≠ '\\' ∧ IsStrict false cs

section Characters

variable {c : Char} {cs : List Char}

theorem outer_inside (hquote : c ≠ '"') (hslash : c ≠ '\\') :
    outer true (c :: cs) = outer true cs := by
  rw [outer]
  · exact hquote
  · exact fun _ _ h => absurd h hslash

theorem outer_outside (hquote : c ≠ '"') : outer false (c :: cs) = c :: outer false cs := by
  rw [outer]
  exact hquote

theorem isStrict_inside (hquote : c ≠ '"') (hslash : c ≠ '\\') :
    IsStrict true (c :: cs) ↔ ¬ c.toNat < 0x20 ∧ IsStrict true cs := by
  rw [IsStrict]
  · exact hquote
  · exact fun _ _ h => absurd h hslash

theorem isStrict_outside (hquote : c ≠ '"') :
    IsStrict false (c :: cs) ↔ c ≠ '\\' ∧ IsStrict false cs := by
  rw [IsStrict]
  exact hquote

theorem isStrict_plain (hc : isPlain c = true) : IsStrict true (c :: cs) ↔ IsStrict true cs := by
  obtain ⟨hcontrol, hquote, hslash⟩ := isPlain_iff.mp hc
  rw [isStrict_inside hquote hslash, and_iff_right hcontrol]

theorem ne_of_control (hc : c.toNat < 0x20) : c ≠ '"' ∧ c ≠ '\\' := by
  constructor <;> rintro rfl <;> exact absurd hc (by decide)

theorem not_isStrict_control (hc : c.toNat < 0x20) : ¬ IsStrict true (c :: cs) := by
  obtain ⟨hquote, hslash⟩ := ne_of_control hc
  exact fun h => ((isStrict_inside hquote hslash).mp h).1 hc

theorem outer_plain (hc : isPlain c = true) : outer true (c :: cs) = outer true cs :=
  outer_inside (isPlain_iff.mp hc).2.1 (isPlain_iff.mp hc).2.2

theorem isPlain_of_hexQuad? {a b x y : Char} {n : Nat} (h : hexQuad? a b x y = some n) :
    isPlain a = true ∧ isPlain b = true ∧ isPlain x = true ∧ isPlain y = true := by
  simp only [hexQuad?, Option.bind_eq_bind, Option.bind_eq_some_iff] at h
  obtain ⟨_, ha, _, hb, _, hx, _, hy, -⟩ := h
  exact ⟨isPlain_of_hexValue? ha, isPlain_of_hexValue? hb, isPlain_of_hexValue? hx,
    isPlain_of_hexValue? hy⟩

end Characters

section Bodies

variable {cs x rest : List Char}

theorem isStrict_number {a b c d : Char} {n : Nat} (h : hexQuad? a b c d = some n)
    (cs : List Char) :
    IsStrict true ('\\' :: 'u' :: a :: b :: c :: d :: cs) ↔ IsStrict true cs := by
  obtain ⟨ha, hb, hc, hd⟩ := isPlain_of_hexQuad? h
  rw [IsStrict, and_iff_right (by decide), isStrict_plain ha, isStrict_plain hb,
    isStrict_plain hc, isStrict_plain hd]

theorem outer_number {a b c d : Char} {n : Nat} (h : hexQuad? a b c d = some n)
    (cs : List Char) :
    outer true ('\\' :: 'u' :: a :: b :: c :: d :: cs) = outer true cs := by
  obtain ⟨ha, hb, hc, hd⟩ := isPlain_of_hexQuad? h
  rw [outer, outer_plain ha, outer_plain hb, outer_plain hc, outer_plain hd]

theorem StringBody.outer_eq (h : StringBody cs x rest) : outer true cs = outer false rest := by
  induction h with
  | close rest => rfl
  | plain hc _ ih => rw [outer_plain hc, ih]
  | letter _ _ ih => exact ih
  | number hquad _ _ _ ih => rw [outer_number hquad, ih]
  | pair hquad _ hquad' _ _ ih => rw [outer_number hquad, outer_number hquad', ih]

theorem StringBody.isStrict_iff (h : StringBody cs x rest) :
    IsStrict true cs ↔ IsStrict false rest := by
  induction h with
  | close rest => exact Iff.rfl
  | plain hc _ ih => exact (isStrict_plain hc).trans ih
  | letter hl _ ih => exact (and_iff_right (plainEscape?_cases hl).2).trans ih
  | number hquad _ _ _ ih => exact (isStrict_number hquad _).trans ih
  | pair hquad _ hquad' _ _ ih =>
    exact (isStrict_number hquad _).trans ((isStrict_number hquad' _).trans ih)

end Bodies

section Escaping

/-- A control character is escaped by a backslash and characters that stand for themselves. -/
theorem escapeControl_of_control {c : Char} (hc : c.toNat < 0x20) :
    ∃ l more, escapeControl c = '\\' :: l :: more ∧ ¬ l.toNat < 0x20 ∧
      ∀ d ∈ more, isPlain d = true := by
  rw [escapeControl, if_pos hc]
  by_cases hnamed : c = '\x08' ∨ c = '\x0c' ∨ c = '\n' ∨ c = '\r' ∨ c = '\t'
  · rcases hnamed with rfl | rfl | rfl | rfl | rfl <;>
      exact ⟨_, [], rfl, by decide, List.forall_mem_nil _⟩
  · simp only [not_or] at hnamed
    obtain ⟨hb, hf, hn, hr, ht⟩ := hnamed
    obtain ⟨hquote, hslash⟩ := ne_of_control hc
    have hdigit : ∀ d, d < 16 → isPlain (hexDigit d) = true := by decide
    simp only [escapeChar, hquote, hslash, hb, hf, hn, hr, ht, hc, if_true, if_false]
    refine ⟨_, _, rfl, by decide, ?_⟩
    simp only [List.forall_mem_cons]
    exact ⟨by decide, by decide, hdigit _ (by omega), hdigit _ (by omega), List.forall_mem_nil _⟩

theorem escapeControl_of_not {c : Char} (hc : ¬ c.toNat < 0x20) : escapeControl c = [c] :=
  if_neg hc

theorem not_isStrict_escapeControl {c : Char} (hc : c.toNat < 0x20) (cs : List Char) :
    ¬ IsStrict false (escapeControl c ++ cs) := by
  obtain ⟨l, more, heq, -, -⟩ := escapeControl_of_control hc
  rw [heq]
  exact fun h => h.1 rfl

theorem isStrict_of_escapeControl {c : Char} {cs : List Char} (hc : c.toNat < 0x20)
    (h : IsStrict true (escapeControl c ++ cs)) : IsStrict true cs := by
  obtain ⟨l, more, heq, -, hmore⟩ := escapeControl_of_control hc
  rw [heq] at h
  have hall : ∀ more : List Char, (∀ d ∈ more, isPlain d = true) →
      IsStrict true (more ++ cs) → IsStrict true cs := by
    intro more hmore h
    induction more with
    | nil => exact h
    | cons d more ih =>
      obtain ⟨hd, hmore⟩ := List.forall_mem_cons.mp hmore
      exact ih hmore ((isStrict_plain hd).mp h)
  exact hall more hmore h.2

/-- A control character in a string is read from its escape. -/
theorem StringBody.control {c : Char} {cs x rest : List Char} (hc : c.toNat < 0x20)
    (h : StringBody cs x rest) : StringBody (escapeControl c ++ cs) (c :: x) rest := by
  refine stringBody_of_scanString? _ _ _ ?_
  rw [escapeControl, if_pos hc, scanString?_escapeChar, h.scanString?_eq]
  rfl

theorem flatMap_escapeControl {cs : List Char} (h : ∀ c ∈ cs, ¬ c.toNat < 0x20) :
    cs.flatMap escapeControl = cs := by
  induction cs with
  | nil => rfl
  | cons c rest ih =>
    obtain ⟨hc, hrest⟩ := List.forall_mem_cons.mp h
    rw [List.flatMap_cons, escapeControl_of_not hc, ih hrest]
    rfl

theorem flatMap_number {a b x y : Char} {n : Nat} (h : hexQuad? a b x y = some n)
    (cs : List Char) : ('\\' :: 'u' :: a :: b :: x :: y :: cs).flatMap escapeControl =
      '\\' :: 'u' :: a :: b :: x :: y :: cs.flatMap escapeControl := by
  obtain ⟨ha, hb, hx, hy⟩ := isPlain_of_hexQuad? h
  have hfront : ∀ c ∈ ['\\', 'u', a, b, x, y], ¬ c.toNat < 0x20 := by
    simp only [List.forall_mem_cons]
    exact ⟨by decide, by decide, (isPlain_iff.mp ha).1, (isPlain_iff.mp hb).1,
      (isPlain_iff.mp hx).1, (isPlain_iff.mp hy).1, List.forall_mem_nil _⟩
  have hsplit : '\\' :: 'u' :: a :: b :: x :: y :: cs = ['\\', 'u', a, b, x, y] ++ cs := rfl
  rw [hsplit, List.flatMap_append, flatMap_escapeControl hfront]
  rfl

end Escaping

namespace Unescapes

variable {inside : Bool} {cs ds : List Char}

/-- Where nothing was replaced, no control character stands raw. -/
theorem eq_of_isStrict (h : Unescapes inside cs ds) (hds : IsStrict inside ds) : ds = cs := by
  induction h with
  | nil => rfl
  | outside hquote _ ih => rw [ih ((isStrict_outside hquote).mp hds).2]
  | opening _ ih => rw [ih hds]
  | closing _ ih => rw [ih hds]
  | inside hquote hslash _ ih => rw [ih ((isStrict_inside hquote hslash).mp hds).2]
  | escape _ ih => rw [ih hds.2]
  | letter _ hc => exact absurd hds (not_isStrict_control hc)
  | number _ hc => exact absurd hds (not_isStrict_control hc)

/-- A control character outside the strings leaves a backslash there. -/
theorem not_control_of_isStrict (h : Unescapes inside cs ds) (hcs : IsStrict inside cs)
    (hds : IsStrict inside (ds.flatMap escapeControl)) :
    ∀ c ∈ outer inside cs, ¬ c.toNat < 0x20 := by
  induction h with
  | nil => exact List.forall_mem_nil _
  | @outside c cs ds hquote _ ih =>
    rw [List.flatMap_cons] at hds
    have hc : ¬ c.toNat < 0x20 := fun hc => not_isStrict_escapeControl hc _ hds
    rw [escapeControl_of_not hc, List.singleton_append, isStrict_outside hquote] at hds
    rw [outer_outside hquote]
    exact List.forall_mem_cons.mpr ⟨hc, ih ((isStrict_outside hquote).mp hcs).2 hds.2⟩
  | opening _ ih => exact ih hcs hds
  | closing _ ih => exact ih hcs hds
  | inside hquote hslash _ ih =>
    obtain ⟨hc, hcs⟩ := (isStrict_inside hquote hslash).mp hcs
    rw [List.flatMap_cons, escapeControl_of_not hc, List.singleton_append,
      isStrict_inside hquote hslash] at hds
    rw [outer_inside hquote hslash]
    exact ih hcs hds.2
  | escape _ ih =>
    rw [List.flatMap_cons, List.flatMap_cons, escapeControl_of_not hcs.1] at hds
    exact ih hcs.2 hds.2
  | letter hl hc _ ih =>
    rw [List.flatMap_cons] at hds
    exact ih hcs.2 (isStrict_of_escapeControl hc hds)
  | number hquad hc _ ih =>
    rw [List.flatMap_cons] at hds
    rw [outer_number hquad]
    exact ih ((isStrict_number hquad _).mp hcs) (isStrict_of_escapeControl hc hds)

/-- What stands before the strings is the same. -/
theorem of_append {bs : List Char} (hbs : ∀ c ∈ bs, c ≠ '"') (h : Unescapes false (bs ++ cs) ds) :
    ∃ es, ds = bs ++ es ∧ Unescapes false cs es := by
  induction bs generalizing ds with
  | nil => exact ⟨ds, rfl, h⟩
  | cons c bs ih =>
    obtain ⟨hc, hbs⟩ := List.forall_mem_cons.mp hbs
    cases h with
    | outside _ hrest =>
      obtain ⟨es, rfl, hes⟩ := ih hbs hrest
      exact ⟨es, rfl, hes⟩
    | opening => exact absurd rfl hc

theorem of_plain {c : Char} (hc : isPlain c = true) (h : Unescapes true (c :: cs) ds) :
    ∃ es, ds = c :: es ∧ Unescapes true cs es := by
  cases h with
  | inside _ _ hes => exact ⟨_, rfl, hes⟩
  | closing => exact absurd hc (by decide)
  | escape => exact absurd hc (by decide)
  | letter => exact absurd hc (by decide)
  | number => exact absurd hc (by decide)

theorem of_number {a b x y : Char} {n : Nat} (hquad : hexQuad? a b x y = some n)
    (h : Unescapes true ('\\' :: 'u' :: a :: b :: x :: y :: cs) ds) :
    (∃ es, ds = '\\' :: 'u' :: a :: b :: x :: y :: es ∧ Unescapes true cs es) ∨
    ∃ c es, n = c.toNat ∧ c.toNat < 0x20 ∧ ds = c :: es ∧ Unescapes true cs es := by
  cases h with
  | inside _ hslash => exact absurd rfl hslash
  | escape h =>
    obtain ⟨ha, hb, hx, hy⟩ := isPlain_of_hexQuad? hquad
    obtain ⟨_, rfl, hafter⟩ := h.of_plain ha
    obtain ⟨_, rfl, hafter'⟩ := hafter.of_plain hb
    obtain ⟨_, rfl, hafter''⟩ := hafter'.of_plain hx
    obtain ⟨es, rfl, hes⟩ := hafter''.of_plain hy
    exact .inl ⟨es, rfl, hes⟩
  | letter hl => cases hl
  | @number _ _ _ _ c _ es hquad' hc hes =>
    rw [hquad] at hquad'
    exact .inr ⟨c, es, Option.some.inj hquad', hc, rfl, hes⟩

end Unescapes

/-- A string with raw characters says, once they are escaped, what the string says. It is longer
than that by its closing quote at least. -/
theorem StringBody.unescaped {cs x rest ds : List Char} (h : StringBody cs x rest)
    (hds : Unescapes true cs ds) : ∃ es, Unescapes false rest es ∧ x.length < ds.length ∧
      StringBody (ds.flatMap escapeControl) x (es.flatMap escapeControl) := by
  -- each piece of the string is left as it is, or is a control character that now stands raw
  induction h generalizing ds with
  | close rest =>
    cases hds with
    | closing hes => exact ⟨_, hes, Nat.zero_lt_succ _, .close _⟩
    | inside hquote => exact absurd rfl hquote
  | plain hc _ ih =>
    obtain ⟨ds, rfl, hafter⟩ := hds.of_plain hc
    obtain ⟨es, hes, hlength, hbody⟩ := ih hafter
    rw [List.flatMap_cons, escapeControl_of_not (isPlain_iff.mp hc).1]
    exact ⟨es, hes, Nat.succ_lt_succ hlength, .plain hc hbody⟩
  | letter hl _ ih =>
    cases hds with
    | inside _ hslash => exact absurd rfl hslash
    | escape hafter =>
      obtain ⟨es, hes, hlength, hbody⟩ := ih hafter
      rw [List.flatMap_cons, List.flatMap_cons, escapeControl_of_not (plainEscape?_cases hl).2]
      exact ⟨es, hes, by simp only [List.length_cons]; omega, .letter hl hbody⟩
    | letter hl' hc hafter =>
      rw [hl] at hl'
      cases hl'
      obtain ⟨es, hes, hlength, hbody⟩ := ih hafter
      rw [List.flatMap_cons]
      exact ⟨es, hes, Nat.succ_lt_succ hlength, hbody.control hc⟩
    | number => cases hl
  | number hquad hlow hhigh _ ih =>
    rcases hds.of_number hquad with ⟨ds, rfl, hafter⟩ | ⟨c, ds, rfl, hc, rfl, hafter⟩
    · obtain ⟨es, hes, hlength, hbody⟩ := ih hafter
      rw [flatMap_number hquad]
      exact ⟨es, hes, by simp only [List.length_cons]; omega, .number hquad hlow hhigh hbody⟩
    · obtain ⟨es, hes, hlength, hbody⟩ := ih hafter
      rw [List.flatMap_cons, Char.ofNat_toNat]
      exact ⟨es, hes, Nat.succ_lt_succ hlength, hbody.control hc⟩
  | @pair _ _ _ _ _ _ _ _ n m _ _ _ hquad hhigh hquad' hlow _ ih =>
    have hhalves : ¬ n < 0x20 ∧ ¬ m < 0x20 := by
      simp only [isHighSurrogate, isLowSurrogate, Bool.and_eq_true, decide_eq_true_eq] at hhigh hlow
      omega
    rcases hds.of_number hquad with ⟨ds, rfl, hafter⟩ | ⟨c, ds, rfl, hc, -, -⟩
    · rcases hafter.of_number hquad' with ⟨ds, rfl, hafter'⟩ | ⟨c, ds, rfl, hc, -, -⟩
      · obtain ⟨es, hes, hlength, hbody⟩ := ih hafter'
        rw [flatMap_number hquad, flatMap_number hquad']
        exact ⟨es, hes, by simp only [List.length_cons]; omega, .pair hquad hhigh hquad' hlow hbody⟩
      · exact absurd hc hhalves.2
    · exact absurd hc hhalves.1

section Tokens

variable {s t : List Char} {ts : List Token}

theorem isStrict_append {bs cs : List Char} (hbs : ∀ c ∈ bs, c ≠ '"' ∧ c ≠ '\\') :
    IsStrict false (bs ++ cs) ↔ IsStrict false cs := by
  induction bs with
  | nil => exact Iff.rfl
  | cons c bs ih =>
    obtain ⟨hc, hbs⟩ := List.forall_mem_cons.mp hbs
    rw [List.cons_append, isStrict_outside hc.1, and_iff_right hc.2]
    exact ih hbs

theorem outer_append {bs cs : List Char} (hbs : ∀ c ∈ bs, c ≠ '"') :
    outer false (bs ++ cs) = bs ++ outer false cs := by
  induction bs with
  | nil => rfl
  | cons c bs ih =>
    obtain ⟨hc, hbs⟩ := List.forall_mem_cons.mp hbs
    rw [List.cons_append, outer_outside hc, ih hbs]
    rfl

theorem ne_of_isSpace {c : Char} (h : isSpace c = true) : c ≠ '"' ∧ c ≠ '\\' := by
  constructor <;> rintro rfl <;> cases h

theorem ne_of_isBare {c : Char} (h : isBare c = true) : c ≠ '"' ∧ c ≠ '\\' :=
  (isPlain_iff.mp (isPlain_of_isBare h)).2

theorem Lexed.isStrict (h : Lexed s ts) : IsStrict false s := by
  induction h with
  | @blanks cs hblanks =>
    rw [← List.append_nil cs, isStrict_append fun c hc => ne_of_isSpace (hblanks c hc)]
    trivial
  | bare hblanks htakes _ ih =>
    rw [isStrict_append fun c hc => ne_of_isSpace (hblanks c hc), ← List.cons_append,
      isStrict_append fun d hd => ne_of_isBare (htakes.bare d hd)]
    exact ih
  | string hblanks hbody _ ih =>
    rw [isStrict_append fun c hc => ne_of_isSpace (hblanks c hc)]
    exact hbody.isStrict_iff.mpr ih

/-- What stands before the strings is not escaped where no control character is there. -/
theorem Unescapes.flatMap_append {bs : List Char} (h : Unescapes false (bs ++ s) t)
    (hbs : ∀ c ∈ bs, c ≠ '"') (houter : ∀ c ∈ outer false (bs ++ s), ¬ c.toNat < 0x20) :
    ∃ es, Unescapes false s es ∧ t.flatMap escapeControl = bs ++ es.flatMap escapeControl ∧
      ∀ c ∈ outer false s, ¬ c.toNat < 0x20 := by
  obtain ⟨es, rfl, hes⟩ := h.of_append hbs
  rw [outer_append hbs] at houter
  obtain ⟨hfront, hrest⟩ := List.forall_mem_append.mp houter
  exact ⟨es, hes, by rw [List.flatMap_append, flatMap_escapeControl hfront], hrest⟩

/-- The text behind a token begins as before. -/
theorem Unescapes.head?_eq (h : Unescapes false s t)
    (houter : ∀ c ∈ outer false s, ¬ c.toNat < 0x20) :
    (t.flatMap escapeControl).head? = s.head? := by
  cases h with
  | nil => rfl
  | outside hquote _ =>
    rw [outer_outside hquote] at houter
    rw [List.flatMap_cons, escapeControl_of_not (List.forall_mem_cons.mp houter).1]
    rfl
  | opening => rfl

/-- Where no control character stands outside the strings, the tokens with raw characters escaped
are those of the document. -/
theorem Lexed.unescaped (h : Lexed s ts) (ht : Unescapes false s t)
    (houter : ∀ c ∈ outer false s, ¬ c.toNat < 0x20) : Lexed (t.flatMap escapeControl) ts := by
  induction h generalizing t with
  | @blanks cs hblanks =>
    rw [← List.append_nil cs] at ht houter
    obtain ⟨es, hes, heq, -⟩ :=
      ht.flatMap_append (fun c hc => (ne_of_isSpace (hblanks c hc)).1) houter
    cases hes
    rw [heq, List.flatMap_nil, List.append_nil]
    exact .blanks hblanks
  | bare hblanks htakes _ ih =>
    obtain ⟨es, hes, heq, houter⟩ :=
      ht.flatMap_append (fun c hc => (ne_of_isSpace (hblanks c hc)).1) houter
    rw [← List.cons_append] at hes houter
    obtain ⟨fs, hfs, heq', houter⟩ :=
      hes.flatMap_append (fun d hd => (ne_of_isBare (htakes.bare d hd)).1) houter
    rw [heq, heq', List.cons_append]
    refine .bare hblanks ⟨htakes.bare, fun other ho => htakes.again other ?_⟩ (ih hfs houter)
    exact ho.trans (hfs.head?_eq houter)
  | string hblanks hbody _ ih =>
    obtain ⟨es, hes, heq, houter⟩ :=
      ht.flatMap_append (fun c hc => (ne_of_isSpace (hblanks c hc)).1) houter
    rw [heq]
    cases hes with
    | outside hquote => exact absurd rfl hquote
    | opening hds =>
      obtain ⟨fs, hfs, -, hbody'⟩ := hbody.unescaped hds
      exact .string hblanks hbody' (ih hfs (hbody.outer_eq ▸ houter))

/-- A string is shorter than the text that it is read from. -/
theorem Lexed.length_lt {x : String} (h : Lexed s [.str x]) (ht : Unescapes false s t) :
    x.toList.length < t.length := by
  obtain ⟨blanks, body, rest, rfl, hblanks, hbody⟩ := h.exists_body
  obtain ⟨es, rfl, hes⟩ := ht.of_append fun c hc => (ne_of_isSpace (hblanks c hc)).1
  cases hes with
  | outside hquote => exact absurd rfl hquote
  | opening hds =>
    obtain ⟨-, -, hlength, -⟩ := hbody.unescaped hds
    rw [List.length_append, List.length_cons]
    omega

end Tokens

section Reading

variable {s t : String} {v : Json}

theorem exists_lexed (h : parse? s = some v) : ∃ ts, Lexed s.toList ts := by
  obtain ⟨ts, _, htokens, hwhole, -, -⟩ := parse?_eq_some h
  exact ⟨ts, lexed_of_tokensWithin? htokens hwhole⟩

theorem isStrict_of_parse? (h : parse? s = some v) : IsStrict false s.toList := by
  obtain ⟨ts, hts⟩ := exists_lexed h
  exact hts.isStrict

theorem toList_escapeControls (t : String) :
    (escapeControls t).toList = t.toList.flatMap escapeControl :=
  String.toList_ofList

/-- A text with raw characters is no document. -/
theorem Unescapes.parse?_eq_none (h : Unescapes false s.toList t.toList) (hne : t ≠ s) :
    parse? t = none := by
  refine Option.eq_none_iff_forall_ne_some.mpr fun v hv => ?_
  exact hne (String.toList_inj.mp (h.eq_of_isStrict (isStrict_of_parse? hv)))

/-- Escaped, the text is the document again if no control character stands outside the strings. -/
theorem Unescapes.parse?_escapeControls (h : Unescapes false s.toList t.toList)
    (hv : parse? s = some v) (houter : ∀ c ∈ outer false s.toList, ¬ c.toNat < 0x20) :
    parse? (escapeControls t) = some v := by
  obtain ⟨ts, hts⟩ := exists_lexed hv
  rw [← hv]
  refine parse?_congr ?_
  rw [toList_escapeControls, (hts.unescaped h houter).tokens?_eq, hts.tokens?_eq]

theorem Unescapes.parse?_escapeControls_eq_none (h : Unescapes false s.toList t.toList)
    (hv : parse? s = some v) (houter : ¬ ∀ c ∈ outer false s.toList, ¬ c.toNat < 0x20) :
    parse? (escapeControls t) = none := by
  refine Option.eq_none_iff_forall_ne_some.mpr fun w hw => ?_
  have hstrict := isStrict_of_parse? hw
  rw [toList_escapeControls] at hstrict
  exact houter (h.not_control_of_isStrict (isStrict_of_parse? hv) hstrict)

/-- A document is not the text of a string in it. -/
theorem Unescapes.ne_str (h : Unescapes false s.toList t.toList) (hv : parse? s = some v) :
    v ≠ .str t := by
  rintro rfl
  obtain ⟨ts, w, htokens, hwhole, hrun, hw⟩ := parse?_eq_some hv
  obtain rfl := eq_str_of_canonical hw
  obtain rfl := eq_str_of_run hrun
  exact Nat.lt_irrefl _ ((lexed_of_tokensWithin? htokens hwhole).length_lt h)

end Reading

/--
Control characters that stand raw in the strings of a document are read as they are if none stands
outside the strings. Otherwise the document with raw characters is a text.
-/
theorem raw_controls_read_iff {s t : String} {v : Json} (hv : parse? s = some v)
    (ht : Unescapes false s.toList t.toList) :
    (ofStoredText t = v ↔ t = s ∨ ∀ c ∈ outer false s.toList, ¬ c.toNat < 0x20) ∧
      (ofStoredText t ≠ v → ofStoredText t = .str t) := by
  by_cases hsame : t = s
  · have hread : ofStoredText t = v := by
      rw [ofStoredText, hsame, hv]
    exact ⟨⟨fun _ => .inl hsame, fun _ => hread⟩, fun hne => absurd hread hne⟩
  · have hread : ofStoredText t = (parse? (escapeControls t)).getD (.str t) := by
      rw [ofStoredText, ht.parse?_eq_none hsame]
    by_cases houter : ∀ c ∈ outer false s.toList, ¬ c.toNat < 0x20
    · rw [hread, ht.parse?_escapeControls hv houter]
      exact ⟨⟨fun _ => .inr houter, fun _ => rfl⟩, fun hne => absurd rfl hne⟩
    · rw [hread, ht.parse?_escapeControls_eq_none hv houter]
      refine ⟨⟨fun htext => absurd htext.symm (ht.ne_str hv), fun h => ?_⟩, fun _ => rfl⟩
      exact absurd h (not_or.mpr ⟨hsame, houter⟩)

end EntityStore.Json

namespace EntityStore.Sample

open Json

def notice : Json := .obj [("text", .str "a\nb")]

/-- The notice behind its opening brace, as a document and with a raw line break in its string. -/
def noticeMembers : String := "\"text\":\"a\\nb\"\x7d"

def rawNoticeMembers : String := "\"text\":\"a\nb\"\x7d"

theorem unescapes_noticeMembers :
    Unescapes false noticeMembers.toList rawNoticeMembers.toList :=
  .opening <| .inside (by decide) (by decide) <| .inside (by decide) (by decide) <|
  .inside (by decide) (by decide) <| .inside (by decide) (by decide) <| .closing <|
  .outside (by decide) <| .opening <| .inside (by decide) (by decide) <|
  .letter rfl (by decide) <| .inside (by decide) (by decide) <| .closing <|
  .outside (by decide) <| .nil false

end EntityStore.Sample

namespace EntityStore.Json

open Sample in
theorem raw_controls_read_of_notice : ofStoredText ("\x7b" ++ rawNoticeMembers) = notice := by
  have hdocument : parse? ("\x7b" ++ noticeMembers) = some notice := by cbv
  have hraw : Unescapes false ("\x7b" ++ noticeMembers).toList
      ("\x7b" ++ rawNoticeMembers).toList := .outside (by decide) unescapes_noticeMembers
  have houter : outer false ("\x7b" ++ noticeMembers).toList = ['\x7b', ':', '\x7d'] := by cbv
  refine (raw_controls_read_iff hdocument hraw).1.mpr (.inr ?_)
  rw [houter]
  simp only [List.forall_mem_cons]
  exact ⟨by decide, by decide, by decide, List.forall_mem_nil _⟩

open Sample in
/-- With a line break between its tokens, the notice stays a text. -/
theorem raw_controls_stay_text : parse? ("\x7b\n" ++ noticeMembers) = some notice ∧
    Unescapes false ("\x7b\n" ++ noticeMembers).toList ("\x7b\n" ++ rawNoticeMembers).toList ∧
    ofStoredText ("\x7b\n" ++ rawNoticeMembers) = .str ("\x7b\n" ++ rawNoticeMembers) := by
  refine ⟨by cbv, ?_, by cbv⟩
  exact .outside (by decide) (.outside (by decide) unescapes_noticeMembers)

end EntityStore.Json
