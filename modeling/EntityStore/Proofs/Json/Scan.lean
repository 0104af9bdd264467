import EntityStore.Proofs.Json.Token
import Mathlib.Data.List.TakeWhile

/-!
How the tokens of a text cover it. Between blanks stand strings and, made of characters that no
string needs an escape for, all other tokens. A token of the second kind depends on what follows it
by no more than the next character.
-/
namespace EntityStore.Json

def isPlain (c : Char) : Bool :=
  !decide (c.toNat < 0x20) && c != '"' && c != '\\'

def isBare (c : Char) : Bool :=
  isPlain c && !isSpace c

section Characters

variable {c : Char}

theorem isPlain_iff : isPlain c = true ↔ ¬ c.toNat < 0x20 ∧ c ≠ '"' ∧ c ≠ '\\' := by
  simp [isPlain, and_assoc]

theorem isPlain_of_isBare (h : isBare c = true) : isPlain c = true :=
  (Bool.and_eq_true_iff.mp h).1

theorem isSpace_of_isBare (h : isBare c = true) : isSpace c = false := by
  simpa using (Bool.and_eq_true_iff.mp h).2

theorem isPlain_of_le (hlow : 0x30 ≤ c.toNat) (hslash : c.toNat ≠ 0x5c) : isPlain c = true := by
  refine isPlain_iff.mpr ⟨by omega, ?_, ?_⟩
  · rintro rfl
    exact absurd hlow (by decide)
  · rintro rfl
    exact hslash rfl

theorem isBare_of_isDigit (h : c.isDigit = true) : isBare c = true := by
  have hrange : 0x30 ≤ c.toNat ∧ c.toNat ≤ 0x39 := by
    simpa [Char.isDigit, UInt32.le_iff_toNat_le] using h
  have hspace : ∀ other : Char, other.toNat < 0x30 → (c == other) = false := by
    rintro other hother
    refine beq_false_of_ne ?_
    rintro rfl
    omega
  rw [isBare, isPlain_of_le hrange.1 (by omega), isSpace, hspace ' ' (by decide),
    hspace '\n' (by decide), hspace '\t' (by decide), hspace '\r' (by decide)]
  rfl

theorem isPlain_of_hexValue? {n : Nat} (h : hexValue? c = some n) : isPlain c = true := by
  simp only [hexValue?, Char.le_def, UInt32.le_iff_toNat_le] at h
  have hrange : (0x30 ≤ c.toNat ∧ c.toNat ≤ 0x39) ∨ (0x61 ≤ c.toNat ∧ c.toNat ≤ 0x66) ∨
      (0x41 ≤ c.toNat ∧ c.toNat ≤ 0x46) := by
    split at h
    · next hdigit => exact .inl hdigit
    · split at h
      · next hlower => exact .inr (.inl hlower)
      · split at h
        · next hupper => exact .inr (.inr hupper)
        · cases h
  exact isPlain_of_le (by omega) (by omega)

end Characters

/-- A reader takes these characters, all of them bare, in front of every text that begins as the
rest does. -/
structure Takes {α : Type} (read? : List Char → Option (α × List Char)) (used : List Char) (x : α)
    (rest : List Char) : Prop where
  bare : ∀ c ∈ used, isBare c = true
  again : ∀ other : List Char, other.head? = rest.head? → read? (used ++ other) = some (x, other)

/-- What a reader takes depends on what follows by no more than the next character. -/
def Local {α : Type} (read? : List Char → Option (α × List Char)) : Prop :=
  ∀ cs x rest, read? cs = some (x, rest) → ∃ used, cs = used ++ rest ∧ Takes read? used x rest

section Numbers

theorem head?_append_congr {used a b : List Char} (h : a.head? = b.head?) :
    (used ++ a).head? = (used ++ b).head? := by
  cases used with
  | nil => exact h
  | cons c rest => rfl

theorem not_cons_of_head?_eq {cs other : List Char} {c : Char} (ho : other.head? = cs.head?)
    (hcs : ∀ rest, cs = c :: rest → False) : ∀ rest, other = c :: rest → False := by
  rintro rest rfl
  obtain ⟨tail, htail⟩ := List.head?_eq_some_iff.mp ho.symm
  exact hcs tail htail

/-- Digits are taken up to a character that is none. -/
theorem splitDigits_eq {cs digits rest : List Char}
    (h : Numeral.splitDigits cs = (digits, rest)) : cs = digits ++ rest ∧
      (∀ c ∈ digits, c.isDigit = true) ∧ ∀ other : List Char, other.head? = rest.head? →
        Numeral.splitDigits (digits ++ other) = (digits, other) := by
  obtain ⟨rfl, rfl⟩ := Prod.mk.inj h
  have hdigits : ∀ c ∈ cs.takeWhile Char.isDigit, c.isDigit = true :=
    List.all_eq_true.mp List.all_takeWhile
  refine ⟨List.takeWhile_append_dropWhile.symm, hdigits, fun other hother => ?_⟩
  refine splitDigits_append_of_head? hdigits fun c hc => ?_
  have hnot := List.head?_dropWhile_not Char.isDigit cs
  rw [← hother, Option.mem_def.mp hc] at hnot
  simpa using hnot

/-- What the whole part of a numeral is depends on its digits alone. -/
theorem scanWhole?_eq_some {cs x rest : List Char} (h : scanWhole? cs = some (x, rest)) :
    x ≠ [] ∧ Numeral.splitDigits cs = (x, rest) ∧ ∀ bs other : List Char,
      Numeral.splitDigits bs = (x, other) → scanWhole? bs = some (x, other) := by
  rw [scanWhole?] at h
  split at h
  · cases h
  · next heq =>
    cases h
    exact ⟨List.cons_ne_nil _ _, heq, fun bs other ho => by rw [scanWhole?, ho]; rfl⟩
  · cases h
  · next hempty hzero hlead heq =>
    cases h
    refine ⟨hempty, heq, fun bs other ho => ?_⟩
    rw [scanWhole?, ho]
    split
    · next heq => exact (hempty (Prod.mk.inj heq).1).elim
    · next heq => exact (hzero (Prod.mk.inj heq).1).elim
    · next heq => exact (hlead _ (Prod.mk.inj heq).1).elim
    · next heq => rw [heq]

theorem local_scanFraction? : Local scanFraction? := by
  intro cs x rest h
  unfold scanFraction? at h
  split at h
  · next after =>
    split at h
    · cases h
    · next digits tail hempty hsplit =>
      cases h
      obtain ⟨hcs, hdigits, hother⟩ := splitDigits_eq hsplit
      refine ⟨'.' :: x, by rw [hcs]; rfl, ?_, fun other ho => ?_⟩
      · refine List.forall_mem_cons.mpr ⟨by decide, fun c hc => ?_⟩
        exact isBare_of_isDigit (hdigits c hc)
      · rw [List.cons_append, scanFraction?, hother other ho]
        split
        · next heq => exact (hempty (Prod.mk.inj heq).1).elim
        · next heq => rw [heq]
  · next hpoint =>
    cases h
    refine ⟨[], rfl, List.forall_mem_nil _, fun other ho => ?_⟩
    rw [List.nil_append, scanFraction?]
    exact not_cons_of_head?_eq ho hpoint

/-- A sign is one character or none, and the next one tells. -/
theorem splitSign_eq {cs rest : List Char} {negative : Bool}
    (h : Numeral.splitSign cs = (negative, rest)) : ∃ sign, cs = sign ++ rest ∧
      (∀ c ∈ sign, isBare c = true) ∧ ∀ other : List Char, other.head? = rest.head? →
        Numeral.splitSign (sign ++ other) = (negative, other) := by
  unfold Numeral.splitSign at h
  split at h
  · cases h
    exact ⟨['-'], rfl, List.all_eq_true.mp rfl, fun other _ => rfl⟩
  · cases h
    exact ⟨['+'], rfl, List.all_eq_true.mp rfl, fun other _ => rfl⟩
  · next hminus hplus =>
    cases h
    refine ⟨[], rfl, List.forall_mem_nil _, fun other ho => ?_⟩
    rw [List.nil_append, Numeral.splitSign]
    · exact not_cons_of_head?_eq ho hminus
    · exact not_cons_of_head?_eq ho hplus

theorem local_readExponent? : Local Numeral.readExponent? := by
  intro cs x rest h
  obtain ⟨negative, unsigned, hsign⟩ : ∃ negative unsigned,
      Numeral.splitSign cs = (negative, unsigned) := ⟨_, _, rfl⟩
  obtain ⟨digits, after, hsplit⟩ : ∃ digits after,
      Numeral.splitDigits unsigned = (digits, after) := ⟨_, _, rfl⟩
  simp only [Numeral.readExponent?, hsign, hsplit] at h
  split at h
  · cases h
  · next hempty =>
    cases h
    obtain ⟨sign, hcs, hbare, hagain⟩ := splitSign_eq hsign
    obtain ⟨hunsigned, hdigits, hother⟩ := splitDigits_eq hsplit
    refine ⟨sign ++ digits, by rw [hcs, hunsigned, List.append_assoc], fun c hc => ?_,
      fun other ho => ?_⟩
    · exact (List.mem_append.mp hc).elim (hbare c) fun hc => isBare_of_isDigit (hdigits c hc)
    · have hhead : (digits ++ other).head? = unsigned.head? := by
        rw [hunsigned]
        exact head?_append_congr ho
      rw [List.append_assoc]
      simp only [Numeral.readExponent?, hagain _ hhead, hother other ho]
      rw [if_neg hempty]

theorem local_readScale? : Local Numeral.readScale? := by
  have hmark : ∀ mark, isBare mark = true →
      (∀ after, Numeral.readScale? (mark :: after) = Numeral.readExponent? after) →
      ∀ after x rest, Numeral.readScale? (mark :: after) = some (x, rest) →
        ∃ used, mark :: after = used ++ rest ∧ Takes Numeral.readScale? used x rest := by
    intro mark hbare hreads after x rest h
    obtain ⟨used, hafter, htakes⟩ := local_readExponent? after x rest (hreads _ ▸ h)
    refine ⟨mark :: used, by rw [hafter]; rfl, List.forall_mem_cons.mpr ⟨hbare, htakes.bare⟩,
      fun other ho => ?_⟩
    exact (hreads _).trans (htakes.again other ho)
  intro cs x rest h
  unfold Numeral.readScale? at h
  split at h
  · exact hmark 'e' (by decide) (fun _ => rfl) _ x rest h
  · exact hmark 'E' (by decide) (fun _ => rfl) _ x rest h
  · next hlower hupper =>
    cases h
    refine ⟨[], rfl, List.forall_mem_nil _, fun other ho => ?_⟩
    rw [List.nil_append, Numeral.readScale?]
    · exact not_cons_of_head?_eq ho hlower
    · exact not_cons_of_head?_eq ho hupper

def scanUnsigned? (negative : Bool) (cs : List Char) : Option (Token × List Char) := do
  let (whole, afterWhole) ← scanWhole? cs
  let (fraction, afterFraction) ← scanFraction? afterWhole
  let (exponent, rest) ← Numeral.readScale? afterFraction
  match number? negative (fraction.isEmpty && !hasExponent afterFraction)
      ⟨whole, fraction, exponent⟩ with
  | some n => some (.num n, rest)
  | none => some (.hugeNumber, rest)

theorem scanNumber?_minus (cs : List Char) :
    scanNumber? ('-' :: cs) = scanUnsigned? true cs := rfl

theorem scanNumber?_of_ne {cs : List Char} (h : ∀ rest, cs ≠ '-' :: rest) :
    scanNumber? cs = scanUnsigned? false cs := by
  unfold scanNumber?
  split
  next negative unsigned hsplit =>
  split at hsplit
  · exact absurd rfl (h _)
  · cases hsplit
    rfl

theorem hasExponent_congr {a b : List Char} (h : a.head? = b.head?) :
    hasExponent a = hasExponent b := by
  cases a <;> cases b <;> simp_all [hasExponent]

/-- A number without a sign begins with a digit. -/
theorem scanUnsigned?_eq_some {negative : Bool} {cs rest : List Char} {t : Token}
    (h : scanUnsigned? negative cs = some (t, rest)) : ∃ c used, c.isDigit = true ∧
      cs = c :: (used ++ rest) ∧ Takes (scanUnsigned? negative) (c :: used) t rest := by
  simp only [scanUnsigned?, Option.bind_eq_bind, Option.bind_eq_some_iff] at h
  obtain ⟨⟨whole, afterWhole⟩, hwhole, ⟨fraction, afterFraction⟩, hfraction,
    ⟨exponent, afterScale⟩, hscale, hnumber⟩ := h
  dsimp only at hfraction hscale hnumber
  obtain ⟨hne, hsplit, hwholes⟩ := scanWhole?_eq_some hwhole
  obtain ⟨ha, hdigits, hsplits⟩ := splitDigits_eq hsplit
  obtain ⟨b, hb, hfractions⟩ := local_scanFraction? _ _ _ hfraction
  obtain ⟨c, hc, hscales⟩ := local_readScale? _ _ _ hscale
  obtain ⟨d, digits, rfl⟩ := List.exists_cons_of_ne_nil hne
  have hrest : rest = afterScale := by
    split at hnumber <;> cases hnumber <;> rfl
  subst hrest
  have hcs : cs = d :: (digits ++ (b ++ c) ++ rest) := by
    rw [ha, hb, hc, List.append_assoc, List.append_assoc]
    rfl
  refine ⟨d, digits ++ (b ++ c), hdigits d (List.mem_cons_self ..), hcs, ?_, fun other ho => ?_⟩
  · rw [← List.cons_append]
    simp only [List.forall_mem_append]
    exact ⟨fun x hx => isBare_of_isDigit (hdigits x hx), hfractions.bare, hscales.bare⟩
  · have hheadC : (c ++ other).head? = afterFraction.head? := hc ▸ head?_append_congr ho
    have hheadB : (b ++ (c ++ other)).head? = afterWhole.head? := hb ▸ head?_append_congr hheadC
    have hwhole := hwholes _ _ (hsplits _ hheadB)
    rw [← List.cons_append, List.append_assoc, List.append_assoc]
    simp only [scanUnsigned?, hwhole, hfractions.again _ hheadC, hscales.again _ ho,
      Option.bind_eq_bind, Option.bind_some, hasExponent_congr hheadC]
    split at hnumber <;> cases hnumber <;> rfl

theorem scanNumber?_eq_some {cs rest : List Char} {t : Token}
    (h : scanNumber? cs = some (t, rest)) : ∃ c used, (c.isDigit = true ∨ c = '-') ∧
      cs = c :: (used ++ rest) ∧ Takes scanNumber? (c :: used) t rest := by
  by_cases hminus : ∃ unsigned, cs = '-' :: unsigned
  · obtain ⟨unsigned, rfl⟩ := hminus
    rw [scanNumber?_minus] at h
    obtain ⟨c, used, hc, rfl, htakes⟩ := scanUnsigned?_eq_some h
    refine ⟨'-', c :: used, .inr rfl, rfl, ?_, fun other ho => ?_⟩
    · exact List.forall_mem_cons.mpr ⟨by decide, htakes.bare⟩
    · exact (scanNumber?_minus _).trans (htakes.again other ho)
  · rw [not_exists] at hminus
    rw [scanNumber?_of_ne hminus] at h
    obtain ⟨c, used, hc, rfl, htakes⟩ := scanUnsigned?_eq_some h
    refine ⟨c, used, .inl hc, rfl, htakes.bare, fun other ho => ?_⟩
    rw [scanNumber?_of_ne, htakes.again other ho]
    intro after hafter
    cases (List.cons.inj hafter).1
    cases hc

end Numbers

/-- A token is a string or is made of bare characters. -/
theorem scanToken?_eq_some {cs rest : List Char} {t : Token}
    (h : scanToken? cs = some (t, rest)) :
    (∃ body, cs = '"' :: body ∧ stringToken? body = some (t, rest)) ∨
    ∃ c used, cs = c :: (used ++ rest) ∧ Takes scanToken? (c :: used) t rest := by
  unfold scanToken? at h
  split at h
  case h_10 => exact .inl ⟨_, rfl, h⟩
  case h_11 =>
    obtain ⟨c, used, hc, rfl, htakes⟩ := scanNumber?_eq_some h
    refine .inr ⟨c, used, rfl, htakes.bare, fun other ho => ?_⟩
    exact (scanToken?_of_number hc _).trans (htakes.again other ho)
  case h_7 =>
    cases h
    exact .inr ⟨'n', ['u', 'l', 'l'], rfl, List.all_eq_true.mp rfl, fun _ _ => rfl⟩
  case h_8 =>
    cases h
    exact .inr ⟨'t', ['r', 'u', 'e'], rfl, List.all_eq_true.mp rfl, fun _ _ => rfl⟩
  case h_9 =>
    cases h
    exact .inr ⟨'f', ['a', 'l', 's', 'e'], rfl, List.all_eq_true.mp rfl, fun _ _ => rfl⟩
  all_goals
    cases h
    exact .inr ⟨_, [], rfl, List.all_eq_true.mp rfl, fun _ _ => rfl⟩

/-- What is no string is not read as one. -/
theorem scanToken?_eq_str {cs rest : List Char} {x : String}
    (h : scanToken? cs = some (.str x, rest)) : ∃ body, cs = '"' :: body := by
  unfold scanToken? at h
  split at h
  case h_10 => exact ⟨_, rfl⟩
  case h_11 =>
    simp only [scanNumber?, Option.bind_eq_bind, Option.bind_eq_some_iff] at h
    obtain ⟨_, -, _, -, _, -, hnumber⟩ := h
    split at hnumber <;> cases hnumber
  all_goals cases h

section Strings

/-- A string as it stands behind its opening quote, up to its closing one: what it says, and what
follows it. -/
inductive StringBody : List Char → List Char → List Char → Prop
  | close (rest : List Char) : StringBody ('"' :: rest) [] rest
  | plain {c : Char} {cs x rest : List Char} : isPlain c = true → StringBody cs x rest →
    StringBody (c :: cs) (c :: x) rest
  | letter {l c : Char} {cs x rest : List Char} : plainEscape? l = some c → StringBody cs x rest →
    StringBody ('\\' :: l :: cs) (c :: x) rest
  | number {a b c d : Char} {n : Nat} {cs x rest : List Char} : hexQuad? a b c d = some n →
    isLowSurrogate n = false → isHighSurrogate n = false → StringBody cs x rest →
    StringBody ('\\' :: 'u' :: a :: b :: c :: d :: cs) (Char.ofNat n :: x) rest
  | pair {a b c d a' b' c' d' : Char} {n m : Nat} {cs x rest : List Char} :
    hexQuad? a b c d = some n → isHighSurrogate n = true →
    hexQuad? a' b' c' d' = some m → isLowSurrogate m = true → StringBody cs x rest →
    StringBody ('\\' :: 'u' :: a :: b :: c :: d :: '\\' :: 'u' :: a' :: b' :: c' :: d' :: cs)
      (pairChar n m :: x) rest

theorem plainEscape?_cases {l c : Char} (h : plainEscape? l = some c) :
    l ≠ 'u' ∧ ¬ l.toNat < 0x20 := by
  unfold plainEscape? at h
  split at h
  case h_9 => cases h
  all_goals exact ⟨by decide, by decide⟩

theorem scanString?_letter {l c : Char} (h : plainEscape? l = some c) (cs : List Char) :
    scanString? ('\\' :: l :: cs) = (scanString? cs).map fun r => (c :: r.1, r.2) := by
  rw [scanString?]
  · simp only [h]
  · exact fun _ _ _ _ _ hl => absurd hl (plainEscape?_cases h).1

theorem StringBody.scanString?_eq {cs x rest : List Char} (h : StringBody cs x rest) :
    scanString? cs = some (x, rest) := by
  induction h with
  | close rest => rfl
  | plain hc _ ih =>
    obtain ⟨hcontrol, hquote, hslash⟩ := isPlain_iff.mp hc
    rw [scanString?_plain hquote hslash hcontrol, ih]
    rfl
  | letter hl _ ih =>
    rw [scanString?_letter hl, ih]
    rfl
  | number hquad hlow hhigh _ ih =>
    rw [scanString?]
    simp only [hquad, hlow, hhigh, ih]
    rfl
  | @pair _ _ _ _ _ _ _ _ n m _ _ _ hquad hhigh hquad' hlow _ ih =>
    have hnot : isLowSurrogate n = false := by
      simp only [isHighSurrogate, Bool.and_eq_true, decide_eq_true_eq] at hhigh
      simp only [isLowSurrogate, Bool.and_eq_false_iff, decide_eq_false_iff_not]
      omega
    rw [scanString?]
    simp only [hquad, hnot, hhigh, hquad', hlow, ih]
    rfl

theorem map_cons_eq_some {c : Char} {scanned : Option (List Char × List Char)} {x rest : List Char}
    (h : (scanned.map fun r => (c :: r.1, r.2)) = some (x, rest)) :
    ∃ y, scanned = some (y, rest) ∧ x = c :: y := by
  obtain ⟨⟨y, after⟩, hscanned, heq⟩ := Option.map_eq_some_iff.mp h
  cases heq
  exact ⟨y, hscanned, rfl⟩

theorem stringBody_of_scanString? (cs : List Char) : ∀ x rest,
    scanString? cs = some (x, rest) → StringBody cs x rest := by
  fun_induction scanString? cs with
  | case1 | case3 | case4 | case5 | case7 | case8 | case10 | case12 => exact fun _ _ h => nomatch h
  | case2 rest =>
    rintro x _ h
    cases h
    exact .close _
  | case6 a b c d n hquad _ hhigh a' b' c' d' after m hquad' hlow ih =>
    intro x rest h
    obtain ⟨y, hafter, rfl⟩ := map_cons_eq_some h
    exact .pair hquad hhigh hquad' hlow (ih y rest hafter)
  | case9 a b c d after n hquad hlow hhigh ih =>
    intro x rest h
    obtain ⟨y, hafter, rfl⟩ := map_cons_eq_some h
    exact .number hquad (Bool.eq_false_iff.mpr hlow) (Bool.eq_false_iff.mpr hhigh)
      (ih y rest hafter)
  | case11 l after _ c hl ih =>
    intro x rest h
    obtain ⟨y, hafter, rfl⟩ := map_cons_eq_some h
    exact .letter hl (ih y rest hafter)
  | case13 c after hquote _ _ hplain ih =>
    intro x rest h
    obtain ⟨y, hafter, rfl⟩ := map_cons_eq_some h
    simp only [Bool.or_eq_true, decide_eq_true_eq, beq_iff_eq, not_or] at hplain
    exact .plain (isPlain_iff.mpr ⟨hplain.1, hquote, hplain.2⟩) (ih y rest hafter)

end Strings

section Texts

inductive Lexed : List Char → List Token → Prop
  | blanks {cs : List Char} : (∀ c ∈ cs, isSpace c = true) → Lexed cs []
  | bare {blanks used rest : List Char} {c : Char} {t : Token} {ts : List Token} :
    (∀ c ∈ blanks, isSpace c = true) → Takes scanToken? (c :: used) t rest →
    Lexed rest ts → Lexed (blanks ++ c :: (used ++ rest)) (t :: ts)
  | string {blanks body x rest : List Char} {ts : List Token} :
    (∀ c ∈ blanks, isSpace c = true) → StringBody body x rest → Lexed rest ts →
    Lexed (blanks ++ '"' :: body) (.str (String.ofList x) :: ts)

theorem lexed_of_tokensWithin? {fuel : Nat} {cs : List Char} {ts : List Token}
    (h : tokensWithin? fuel cs = some ts) (hwhole : .brokenString ∉ ts) : Lexed cs ts := by
  induction fuel generalizing cs ts with
  | zero => cases h
  | succ fuel ih =>
    have hblanks : ∀ c ∈ cs.takeWhile isSpace, isSpace c = true :=
      List.all_eq_true.mp List.all_takeWhile
    rw [tokensWithin?] at h
    rw [← List.takeWhile_append_dropWhile (p := isSpace) (l := cs)]
    split at h
    · next hend =>
      cases h
      rw [hend, List.append_nil]
      exact .blanks hblanks
    · next c front hfront =>
      simp only [Option.bind_eq_bind, Option.bind_eq_some_iff, Option.some.injEq] at h
      obtain ⟨⟨t, rest⟩, hscan, us, htokens, rfl⟩ := h
      obtain ⟨ht, hus⟩ := not_or.mp (mt List.mem_cons.mpr hwhole)
      have hrest : Lexed rest us := ih htokens hus
      rw [hfront]
      rcases scanToken?_eq_some hscan with ⟨body, heq, hstring⟩ | ⟨d, used, heq, htakes⟩
      · rw [heq]
        unfold stringToken? at hstring
        split at hstring
        · next x after hbody =>
          cases hstring
          exact .string hblanks (stringBody_of_scanString? _ _ _ hbody) hrest
        · obtain ⟨after, -, heq⟩ := Option.map_eq_some_iff.mp hstring
          cases heq
          exact absurd rfl ht
      · rw [heq]
        exact .bare hblanks htakes hrest

theorem dropWhile_blanks {blanks rest : List Char} {c : Char}
    (hblanks : ∀ c ∈ blanks, isSpace c = true) (hc : isSpace c = false) :
    (blanks ++ c :: rest).dropWhile isSpace = c :: rest := by
  rw [List.dropWhile_append_of_pos hblanks, List.dropWhile_cons_of_neg (by simp [hc])]

theorem Lexed.tokensWithin?_eq {cs : List Char} {ts : List Token} (h : Lexed cs ts) :
    ∀ fuel, ts.length < fuel → tokensWithin? fuel cs = some ts := by
  induction h with
  | blanks hblanks =>
    intro fuel hfuel
    obtain ⟨fuel, rfl⟩ := Nat.exists_eq_add_one_of_ne_zero (Nat.ne_of_gt hfuel)
    rw [tokensWithin?, (List.dropWhile_eq_nil_iff ..).mpr hblanks]
  | @bare _ used rest c t _ hblanks htakes _ ih =>
    intro fuel hfuel
    obtain ⟨fuel, rfl⟩ := Nat.exists_eq_add_one_of_ne_zero (Nat.ne_zero_of_lt hfuel)
    have hc : isSpace c = false := isSpace_of_isBare (List.forall_mem_cons.mp htakes.bare).1
    have hscan : scanToken? (c :: (used ++ rest)) = some (t, rest) := htakes.again rest rfl
    rw [tokensWithin?, dropWhile_blanks hblanks hc]
    simp only [hscan, ih fuel (Nat.lt_of_succ_lt_succ hfuel), Option.bind_eq_bind,
      Option.bind_some]
  | string hblanks hbody _ ih =>
    intro fuel hfuel
    obtain ⟨fuel, rfl⟩ := Nat.exists_eq_add_one_of_ne_zero (Nat.ne_zero_of_lt hfuel)
    rw [tokensWithin?, dropWhile_blanks hblanks rfl]
    simp only [scanToken?, stringToken?, hbody.scanString?_eq,
      ih fuel (Nat.lt_of_succ_lt_succ hfuel), Option.bind_eq_bind, Option.bind_some]

theorem StringBody.length_lt {cs x rest : List Char} (h : StringBody cs x rest) :
    rest.length < cs.length := by
  induction h with
  | close rest => exact Nat.lt_succ_self _
  | plain | letter | number | pair =>
    simp only [List.length_cons]
    omega

theorem Lexed.length_le {cs : List Char} {ts : List Token} (h : Lexed cs ts) :
    ts.length ≤ cs.length := by
  induction h with
  | blanks => exact Nat.zero_le _
  | bare =>
    simp only [List.length_cons, List.length_append]
    omega
  | string _ hbody =>
    have hlt := hbody.length_lt
    simp only [List.length_cons, List.length_append]
    omega

/-- A text with one string for its tokens. -/
theorem Lexed.exists_body {cs : List Char} {x : String} (h : Lexed cs [.str x]) :
    ∃ blanks body rest, cs = blanks ++ '"' :: body ∧ (∀ c ∈ blanks, isSpace c = true) ∧
      StringBody body x.toList rest := by
  generalize hts : [Token.str x] = ts at h
  cases h with
  | blanks => cases hts
  | bare _ htakes =>
    cases hts
    obtain ⟨body, hbody⟩ := scanToken?_eq_str (htakes.again _ rfl)
    obtain ⟨rfl, -⟩ := List.cons.inj hbody
    exact absurd (List.forall_mem_cons.mp htakes.bare).1 (by decide)
  | string hblanks hbody =>
    cases hts
    rw [String.toList_ofList]
    exact ⟨_, _, _, rfl, hblanks, hbody⟩

/-- The tokens of a text are those it is read as. -/
theorem Lexed.tokens?_eq {cs : List Char} {ts : List Token} (h : Lexed cs ts) :
    tokens? cs = some ts :=
  h.tokensWithin?_eq _ (Nat.lt_succ_of_le h.length_le)

end Texts

end EntityStore.Json
