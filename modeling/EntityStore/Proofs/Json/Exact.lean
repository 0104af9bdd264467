import EntityStore.Proofs.Json.Parser
import EntityStore.Proofs.Json.Scan
import EntityStore.Proofs.Json.Shape

/-!
Values that are read from their text. A numeral is scaled in doubles, which may miss the number that
it was written for. The value that is read has each number as its numeral is read, and is the value
that was written just when no number is missed and there is room for all containers.
-/
namespace EntityStore

namespace Json

section Ends

variable {cs other rest : List Char}

/-- Digits end where something stands that a numeral ends before. -/
theorem splitDigits_append_rest (hother : endsNumeral other = true) (cs : List Char) :
    Numeral.splitDigits (cs ++ other) =
      ((Numeral.splitDigits cs).1, (Numeral.splitDigits cs).2 ++ other) := by
  obtain ⟨digits, after, hsplit⟩ : ∃ digits after,
      Numeral.splitDigits cs = (digits, after) := ⟨_, _, rfl⟩
  obtain ⟨rfl, hdigits, hagain⟩ := splitDigits_eq hsplit
  rw [hsplit, List.append_assoc]
  cases after with
  | nil => exact splitDigits_append_of_head? hdigits (head?_of_endsNumeral hother)
  | cons c tail => exact hagain _ rfl

theorem scanWhole?_append (hother : endsNumeral other = true) {x : List Char}
    (h : scanWhole? cs = some (x, rest)) : scanWhole? (cs ++ other) = some (x, rest ++ other) := by
  obtain ⟨-, hsplit, hagain⟩ := scanWhole?_eq_some h
  exact hagain _ _ (by rw [splitDigits_append_rest hother, hsplit])

theorem scanFraction?_append (hother : endsNumeral other = true) {x : List Char}
    (h : scanFraction? cs = some (x, rest)) :
    scanFraction? (cs ++ other) = some (x, rest ++ other) := by
  unfold scanFraction? at h
  split at h
  · next after =>
    rw [List.cons_append, scanFraction?, splitDigits_append_rest hother]
    split at h
    · cases h
    · next digits tail hempty hsplit =>
      cases h
      rw [hsplit]
      split
      · next heq => exact (hempty (Prod.mk.inj heq).1).elim
      · next heq => rw [heq]
  · next hpoint =>
    cases h
    cases cs with
    | nil => exact (scans_of_endsNumeral hother).1
    | cons c tail =>
      have hhead : (c :: tail ++ other).head? = (c :: tail).head? := rfl
      rw [scanFraction?]
      exact not_cons_of_head?_eq hhead hpoint

theorem splitSign_append (hne : cs ≠ []) (other : List Char) : Numeral.splitSign (cs ++ other) =
    ((Numeral.splitSign cs).1, (Numeral.splitSign cs).2 ++ other) := by
  obtain ⟨c, tail, rfl⟩ := List.exists_cons_of_ne_nil hne
  by_cases hminus : c = '-'
  · subst hminus
    rfl
  · by_cases hplus : c = '+'
    · subst hplus
      rfl
    · simp [Numeral.splitSign, hminus, hplus]

/-- An exponent has a digit, so something stands there. -/
theorem readExponent?_append (hother : endsNumeral other = true) {x : Int}
    (h : Numeral.readExponent? cs = some (x, rest)) :
    Numeral.readExponent? (cs ++ other) = some (x, rest ++ other) := by
  have hne : cs ≠ [] := by
    rintro rfl
    cases h
  simp only [Numeral.readExponent?] at h
  split at h
  · cases h
  · next hdigits =>
    cases h
    simp only [Numeral.readExponent?, splitSign_append hne, splitDigits_append_rest hother]
    rw [if_neg hdigits]

theorem readScale?_append (hother : endsNumeral other = true) {x : Int}
    (h : Numeral.readScale? cs = some (x, rest)) :
    Numeral.readScale? (cs ++ other) = some (x, rest ++ other) := by
  unfold Numeral.readScale? at h
  split at h
  · exact readExponent?_append hother h
  · exact readExponent?_append hother h
  · next hlower hupper =>
    cases h
    cases cs with
    | nil => exact (scans_of_endsNumeral hother).2.1
    | cons c tail =>
      have hhead : (c :: tail ++ other).head? = (c :: tail).head? := rfl
      rw [Numeral.readScale?]
      · exact not_cons_of_head?_eq hhead hlower
      · exact not_cons_of_head?_eq hhead hupper

theorem hasExponent_append (hother : endsNumeral other = true) (cs : List Char) :
    hasExponent (cs ++ other) = hasExponent cs := by
  cases cs with
  | nil => exact (scans_of_endsNumeral hother).2.2
  | cons c tail => rfl

theorem scanUnsigned?_append (hother : endsNumeral other = true) {negative : Bool} {t : Token}
    (h : scanUnsigned? negative cs = some (t, rest)) :
    scanUnsigned? negative (cs ++ other) = some (t, rest ++ other) := by
  simp only [scanUnsigned?, Option.bind_eq_bind, Option.bind_eq_some_iff] at h
  obtain ⟨⟨whole, afterWhole⟩, hwhole, ⟨fraction, afterFraction⟩, hfraction,
    ⟨exponent, afterScale⟩, hscale, hnumber⟩ := h
  simp only [scanUnsigned?, scanWhole?_append hother hwhole, scanFraction?_append hother hfraction,
    readScale?_append hother hscale, hasExponent_append hother, Option.bind_eq_bind,
    Option.bind_some]
  dsimp only at hnumber
  generalize number? negative _ _ = read at hnumber ⊢
  cases read <;> cases hnumber <;> rfl

/-- A number is the same where something stands behind it that a numeral ends before. -/
theorem scanNumber?_append (hother : endsNumeral other = true) {t : Token}
    (h : scanNumber? cs = some (t, rest)) :
    scanNumber? (cs ++ other) = some (t, rest ++ other) := by
  by_cases hminus : ∃ unsigned, cs = '-' :: unsigned
  · obtain ⟨unsigned, rfl⟩ := hminus
    exact scanUnsigned?_append hother h
  · rw [not_exists] at hminus
    rw [scanNumber?_of_ne hminus] at h
    obtain ⟨c, used, -, hcs, -⟩ := scanUnsigned?_eq_some h
    rw [scanNumber?_of_ne]
    · exact scanUnsigned?_append hother h
    · rintro after hafter
      rw [hcs] at hafter
      exact hminus _ (by rw [hcs, (List.cons.inj hafter).1])

end Ends

end Json

/-- What the numeral that is written for the number is read as, if it is read as a number. -/
def Number.reread? (n : Number) : Option Number :=
  match Json.scanNumber? (Json.numberText n).toList with
  | some (.num m, []) => some m
  | _ => none

def Number.ReadsExactly (n : Number) : Prop :=
  n.reread? = some n

instance (n : Number) : Decidable n.ReadsExactly :=
  inferInstanceAs (Decidable (n.reread? = some n))

def Number.IsFinite : Number → Prop
  | .int _ => True
  | .float x => x.isFinite = true

namespace Json

section Numerals

variable {negative : Bool} {whole fraction mark digits rest : List Char} {sign : Char}

theorem not_isDigit_of_nil : ∀ c ∈ ([] : List Char).head?, c.isDigit = false :=
  nofun

theorem scanUnsigned?_of_parts {cs afterWhole : List Char} {exponent : Int}
    (hwhole : scanWhole? cs = some (whole, afterWhole))
    (hfraction : scanFraction? afterWhole = some (fraction, mark))
    (hscale : Numeral.readScale? mark = some (exponent, rest)) :
    scanUnsigned? negative cs =
      some (.ofNumber (number? negative (fraction.isEmpty && !hasExponent mark)
        ⟨whole, fraction, exponent⟩), rest) := by
  simp only [scanUnsigned?, hwhole, hfraction, hscale, Option.bind_eq_bind, Option.bind_some]
  cases number? negative _ _ <;> rfl

/-- A numeral without a sign. -/
theorem scanNumber?_of_unsigned {cs : List Char} {t : Token}
    (h : scanUnsigned? false cs = some (t, rest)) : scanNumber? cs = some (t, rest) := by
  obtain ⟨c, used, hc, hcs, -⟩ := scanUnsigned?_eq_some h
  rw [scanNumber?_of_ne, h]
  rintro after hafter
  rw [hcs] at hafter
  rw [(List.cons.inj hafter).1] at hc
  cases hc

/-- Digits are a numeral. -/
theorem scanUnsigned?_digits (hdigits : Leads digits) (negative : Bool) :
    ∃ read, scanUnsigned? negative digits = some (.ofNumber read, []) := by
  have hwhole := scanWhole?_append_of_head? hdigits not_isDigit_of_nil
  rw [List.append_nil] at hwhole
  exact ⟨_, scanUnsigned?_of_parts hwhole rfl rfl⟩

def ScansFloat (negative : Bool) (cs : List Char) : Prop :=
  ∃ read : Option Float, scanUnsigned? negative cs = some (.ofNumber (read.map .float), [])

theorem ScansFloat.of_parts {cs afterWhole : List Char} {exponent : Int}
    (hwhole : scanWhole? cs = some (whole, afterWhole))
    (hfraction : scanFraction? afterWhole = some (fraction, mark))
    (hscale : Numeral.readScale? mark = some (exponent, []))
    (hform : (fraction.isEmpty && !hasExponent mark) = false) : ScansFloat negative cs := by
  refine ⟨(Leading.ofNumeral ⟨whole, fraction, exponent⟩).scale?.map fun x =>
    if negative then -x else x, ?_⟩
  rw [scanUnsigned?_of_parts hwhole hfraction hscale, hform, number?, Option.map_map]
  rfl

theorem scanFraction?_point (hdigits : ∀ c ∈ fraction, c.isDigit = true) (hne : fraction ≠ [])
    (hmark : ∀ c ∈ mark.head?, c.isDigit = false) :
    scanFraction? ('.' :: (fraction ++ mark)) = some (fraction, mark) := by
  rw [scanFraction?, splitDigits_append_of_head? hdigits hmark]
  cases fraction with
  | nil => exact absurd rfl hne
  | cons c tail => rfl

theorem readScale?_mark (hdigits : ∀ c ∈ digits, c.isDigit = true) (hne : digits ≠ [])
    (hsign : sign = '+' ∨ sign = '-') :
    ∃ exponent, Numeral.readScale? ('e' :: sign :: digits) = some (exponent, []) := by
  have hsplit := splitDigits_append_of_head? hdigits not_isDigit_of_nil
  have hsome : digits.isEmpty = false := List.isEmpty_eq_false_iff.mpr hne
  rw [List.append_nil] at hsplit
  rcases hsign with rfl | rfl
  · refine ⟨Text.natFrom 0 digits, ?_⟩
    simp [Numeral.readScale?, Numeral.readExponent?, Numeral.splitSign, hsplit, hsome]
  · refine ⟨-Text.natFrom 0 digits, ?_⟩
    simp [Numeral.readScale?, Numeral.readExponent?, Numeral.splitSign, hsplit, hsome]

theorem scansFloat_point (hwhole : Leads whole) (hdigits : ∀ c ∈ fraction, c.isDigit = true)
    (hne : fraction ≠ []) : ScansFloat negative (whole ++ '.' :: fraction) := by
  have hfraction := scanFraction?_point hdigits hne not_isDigit_of_nil
  rw [List.append_nil] at hfraction
  refine .of_parts (scanWhole?_append_of_head? hwhole ?_) hfraction rfl ?_
  · rintro _ ⟨⟩
    rfl
  · rw [List.isEmpty_eq_false_iff.mpr hne, Bool.false_and]

end Numerals

section Decimals

open Decimal

variable {negative : Bool} {d : Decimal}

theorem isDigit_zeros (n : Nat) : ∀ c ∈ zeros n, c.isDigit = true := by
  intro c hc
  rw [List.eq_of_mem_replicate hc]
  rfl

/-- One digit, then the point and the others, and the exponent behind its mark. -/
theorem scansFloat_scientific (h : 0 < d.coefficient) : ScansFloat negative d.scientific := by
  obtain ⟨c, tail, hdigits, hc⟩ := Text.toDigits_eq_cons h
  have hall := Text.isDigit_toDigits d.coefficient
  rw [hdigits] at hall
  obtain ⟨hfirst, htail⟩ := List.forall_mem_cons.mp hall
  have hlead : Leads [c] := ⟨List.forall_mem_singleton.mpr hfirst, .inr ⟨c, [], rfl, hc⟩⟩
  have hmarked : ∃ sign, (sign = '+' ∨ sign = '-') ∧
      (if 0 ≤ d.point - 1 then ['e', '+'] else ['e', '-']) = ['e', sign] := by
    split
    · exact ⟨'+', .inl rfl, rfl⟩
    · exact ⟨'-', .inr rfl, rfl⟩
  obtain ⟨sign, hsign, hmark⟩ := hmarked
  let mark := 'e' :: sign :: digitsOf (d.point - 1).natAbs
  obtain ⟨exponent, hscale⟩ : ∃ exponent, Numeral.readScale? mark = some (exponent, []) :=
    readScale?_mark (Text.isDigit_toDigits _) Nat.toDigits_ne_nil hsign
  have hnext : ∀ c ∈ mark.head?, c.isDigit = false := by
    rintro _ ⟨⟩
    rfl
  simp only [scientific, Decimal.digits, digitsOf, hdigits, hmark]
  cases tail with
  | nil =>
    have hwhole : scanWhole? ([c] ++ mark) = some ([c], mark) :=
      scanWhole?_append_of_head? hlead hnext
    exact .of_parts hwhole rfl hscale rfl
  | cons x others =>
    have hwhole : scanWhole? ([c] ++ '.' :: (x :: others ++ mark)) =
        some ([c], '.' :: (x :: others ++ mark)) := by
      refine scanWhole?_append_of_head? hlead ?_
      rintro _ ⟨⟩
      rfl
    have hfraction := scanFraction?_point htail (List.cons_ne_nil _ _) hnext
    have hscans : ScansFloat negative ([c] ++ '.' :: (x :: others ++ mark)) :=
      .of_parts hwhole hfraction hscale rfl
    simpa [mark, digitsOf] using hscans

/-- The point stands among the digits, or zeros stand between it and them. -/
theorem scansFloat_positional (h : 0 < d.coefficient) (hexponent : d.exponent < 0) :
    ScansFloat negative d.positional := by
  obtain ⟨c, tail, hdigits, hc⟩ := Text.toDigits_eq_cons h
  have hall : ∀ c ∈ d.digits, c.isDigit = true := Text.isDigit_toDigits d.coefficient
  have hdigits : d.digits = c :: tail := hdigits
  rw [positional, if_neg (by omega)]
  split
  · next hpoint =>
    have hlength : d.point.toNat < d.digits.length := by
      rw [point] at hpoint ⊢
      omega
    refine scansFloat_point ⟨fun x hx => hall x (List.mem_of_mem_take hx), .inr ?_⟩
      (fun x hx => hall x (List.mem_of_mem_drop hx)) ?_
    · obtain ⟨n, hn⟩ := Nat.exists_eq_succ_of_ne_zero (show d.point.toNat ≠ 0 by omega)
      rw [hn, hdigits]
      exact ⟨c, tail.take n, rfl, hc⟩
    · exact mt List.drop_eq_nil_iff.mp (by omega)
  · have hzero : Leads ['0'] := leads_toDigits 0
    refine scansFloat_point hzero (List.forall_mem_append.mpr ⟨isDigit_zeros _, hall⟩) ?_
    rw [hdigits]
    exact List.append_ne_nil_of_right_ne_nil _ (List.cons_ne_nil _ _)

theorem scansFloat_whole (h : 0 < d.coefficient) (hexponent : 0 ≤ d.exponent) :
    ScansFloat negative (d.positional ++ ['.', '0']) := by
  obtain ⟨c, tail, hdigits, hc⟩ := Text.toDigits_eq_cons h
  have hall : ∀ c ∈ d.digits, c.isDigit = true := Text.isDigit_toDigits d.coefficient
  have hdigits : d.digits = c :: tail := hdigits
  rw [positional, if_pos hexponent]
  refine scansFloat_point ⟨List.forall_mem_append.mpr ⟨hall, isDigit_zeros _⟩, .inr ?_⟩
    (List.forall_mem_singleton.mpr rfl) (List.cons_ne_nil _ _)
  rw [hdigits]
  exact ⟨c, _, rfl, hc⟩

/-- The numeral of a double, behind its sign. -/
theorem exists_scan_documentText (x : Float) :
    ∃ read : Option Float, scanNumber? (documentText x).toList =
      some (.ofNumber (read.map .float), []) := by
  have hbody : ∀ negative, ScansFloat negative
      (if (shortest x).coefficient = 0 then ['0', '.', '0']
      else if 16 < (shortest x).point || (shortest x).point < -4 then scientific (shortest x)
      else if 0 ≤ (shortest x).exponent then positional (shortest x) ++ ['.', '0']
      else positional (shortest x)) := by
    intro negative
    split
    · have hzero : Leads ['0'] := leads_toDigits 0
      exact scansFloat_point hzero (List.forall_mem_singleton.mpr rfl) (List.cons_ne_nil _ _)
    · next hcoefficient =>
      have hpos := Nat.pos_of_ne_zero hcoefficient
      split
      · exact scansFloat_scientific hpos
      · split
        · next hexponent => exact scansFloat_whole hpos hexponent
        · next hexponent => exact scansFloat_positional hpos (by omega)
  rw [documentText, String.toList_ofList, signOf]
  split
  · obtain ⟨read, hread⟩ := hbody false
    exact ⟨read, scanNumber?_of_unsigned hread⟩
  · exact hbody true

end Decimals

end Json

/-- A number with a numeral is found as it is read. -/
theorem Number.scanNumber?_numberText {n : Number} (hn : n.IsFinite) :
    Json.scanNumber? (Json.numberText n).toList = some (.ofNumber n.reread?, []) := by
  have hscan : ∃ read, Json.scanNumber? (Json.numberText n).toList =
      some (.ofNumber read, []) := by
    cases n with
    | int k =>
      rw [Json.numberText]
      cases k with
      | ofNat m =>
        rw [Text.toList_toString_ofNat]
        obtain ⟨read, hread⟩ := Json.scanUnsigned?_digits (Json.leads_toDigits m) false
        exact ⟨read, Json.scanNumber?_of_unsigned hread⟩
      | negSucc m =>
        rw [Text.toList_toString_negSucc]
        exact Json.scanUnsigned?_digits (Json.leads_toDigits (m + 1)) true
    | float x =>
      obtain ⟨read, hread⟩ := Json.exists_scan_documentText x
      rw [Json.numberText, if_pos (show x.isFinite = true from hn)]
      exact ⟨_, hread⟩
  obtain ⟨read, hread⟩ := hscan
  rw [reread?, hread]
  cases read <;> rfl

/-- A double is read as a double, if it is read at all. -/
theorem Number.float_of_reread? {x : Float} (hx : x.isFinite = true) {m : Number}
    (h : (Number.float x).reread? = some m) : ∃ y, m = .float y := by
  obtain ⟨read, hread⟩ := Json.exists_scan_documentText x
  rw [reread?, Json.numberText, if_pos hx, hread] at h
  cases read with
  | none => cases h
  | some y => exact ⟨y, (Option.some.inj h).symm⟩

namespace Json

/-- Integers that documents hold are read exactly. -/
theorem readsExactly_int {n : Int} (hlow : -0x8000000000000000 ≤ n)
    (hhigh : n < 0x10000000000000000) : (Number.int n).ReadsExactly := by
  have hscan : scanNumber? ((numberText (.int n)).toList ++ []) = some (.num (.int n), []) :=
    scanNumber?_numberText hlow hhigh rfl
  rw [List.append_nil] at hscan
  rw [Number.ReadsExactly, Number.reread?, hscan]

section Documents

variable {v : Json} {room : Nat}

theorem lexes_number {n : Number} (hn : n.IsFinite) {rest : List Char}
    (hrest : endsNumeral rest = true) :
    Lexes (numberText n).toList [.ofNumber n.reread?] rest := by
  have hread := Number.scanNumber?_numberText hn
  obtain ⟨c, used, hc, htext, -⟩ := scanNumber?_eq_some hread
  have hscan := scanNumber?_append hrest hread
  rw [htext] at hscan ⊢
  rw [List.append_nil] at hscan ⊢
  exact Lexes.of_scanNumber hc hscan

/-- The text of a value is read as the value, with its numbers as their numerals are read, if all of
it is wanted. -/
theorem parseWanted?_printed {wanted : List Step → Bool} (hfinite : ∀ n ∈ v.numbers, n.IsFinite)
    (hwanted : Wanted wanted [] v) :
    parseWanted? wanted v.text = v.reread? Number.reread? maxDepth :=
  parseWanted?_text (lexes_text (fun n hn _ hrest => lexes_number (hfinite n hn) hrest) [] rfl)
    hwanted

theorem canonical_eq_num {w : Json} {n : Number} (h : w.canonical = .num n) : w = .num n := by
  cases w with
  | num m =>
    cases m with
    | int k => exact h
    | float x =>
      rw [canonical, ofFloat] at h
      split at h
      · exact h
      · cases h
  | _ => cases h

/-- Whether no number in the value is missed, and there is room for its containers. -/
structure IsExact (v : Json) (room : Nat) : Prop where
  numbers : ∀ n ∈ v.numbers, n.ReadsExactly
  depth : v.depth ≤ room

theorem keys_rereadMembers? {members ws : List (String × Json)}
    (h : rereadMembers? Number.reread? members room = some ws) :
    ws.map Prod.fst = members.map Prod.fst := by
  induction members generalizing ws with
  | nil =>
    cases h
    rfl
  | cons m rest ih =>
    simp only [rereadMembers?, Option.bind_eq_bind, Option.bind_eq_some_iff,
      Option.map_eq_some_iff] at h
    obtain ⟨w, -, others, hothers, rfl⟩ := h
    rw [List.map_cons, List.map_cons, ih hothers]

theorem reread?_of_items {items ws : List Json}
    (h : rereadItems? Number.reread? items room = some ws) (hcanonical : ws.map canonical = items) :
    ∀ v ∈ items, (v.reread? Number.reread? room).map canonical = some v := by
  induction items generalizing ws with
  | nil => exact List.forall_mem_nil _
  | cons v rest ih =>
    simp only [rereadItems?, Option.bind_eq_bind, Option.bind_eq_some_iff,
      Option.map_eq_some_iff] at h
    obtain ⟨w, hw, others, hothers, rfl⟩ := h
    obtain ⟨hv, hrest⟩ := List.cons.inj hcanonical
    exact List.forall_mem_cons.mpr ⟨by rw [hw, Option.map_some, hv], ih hothers hrest⟩

theorem reread?_of_members {members ws : List (String × Json)}
    (h : rereadMembers? Number.reread? members room = some ws)
    (hcanonical : (ws.map fun m => (m.1, m.2.canonical)) = members) :
    ∀ m ∈ members, (m.2.reread? Number.reread? room).map canonical = some m.2 := by
  induction members generalizing ws with
  | nil => exact List.forall_mem_nil _
  | cons m rest ih =>
    simp only [rereadMembers?, Option.bind_eq_bind, Option.bind_eq_some_iff,
      Option.map_eq_some_iff] at h
    obtain ⟨w, hw, others, hothers, rfl⟩ := h
    obtain ⟨hm, hrest⟩ := List.cons.inj hcanonical
    have hvalue : w.canonical = m.2 := congrArg Prod.snd hm
    exact List.forall_mem_cons.mpr ⟨by rw [hw, Option.map_some, hvalue], ih hothers hrest⟩

theorem isExact_leaf (hnumbers : v.numbers = []) (hdepth : v.depth = 0) (room : Nat) :
    v.IsExact room where
  numbers := by
    rw [hnumbers]
    exact List.forall_mem_nil _
  depth := by
    rw [hdepth]
    exact Nat.zero_le room

theorem isExact_num {n : Number}
    (h : ((num n).reread? Number.reread? room).map canonical = some (.num n)) :
    (num n).IsExact room := by
  obtain ⟨w, hw, hcanonical⟩ := Option.map_eq_some_iff.mp h
  obtain ⟨m, hm, rfl⟩ := Option.map_eq_some_iff.mp hw
  cases canonical_eq_num hcanonical
  exact ⟨List.forall_mem_singleton.mpr hm, Nat.zero_le _⟩

theorem isExact_arr {items : List Json} (h : ∀ v ∈ items, v.IsExact room) :
    (arr items).IsExact (room + 1) where
  numbers n hn := by
    rw [Json.numbers, numbersOfItems_eq_flatMap] at hn
    obtain ⟨v, hv, hn⟩ := List.mem_flatMap.mp hn
    exact (h v hv).numbers n hn
  depth := Nat.succ_le_succ (depthOfItems_le_iff.mpr fun v hv => (h v hv).depth)

theorem isExact_obj {members : Record} (h : ∀ m ∈ members, m.2.IsExact room) :
    (obj members).IsExact (room + 1) where
  numbers n hn := by
    rw [Json.numbers, numbersOfMembers_eq_flatMap] at hn
    obtain ⟨m, hm, hn⟩ := List.mem_flatMap.mp hn
    exact (h m hm).numbers n hn
  depth := Nat.succ_le_succ (depthOfMembers_le_iff.mpr fun m hm => (h m hm).depth)

/-- A value that is read as it is, up to its canonical form, is exact. -/
theorem isExact_of_reread? (hv : v.IsCanonical)
    (h : (v.reread? Number.reread? room).map canonical = some v) : v.IsExact room := by
  induction hv generalizing room with
  | null | bool | str => exact isExact_leaf rfl rfl room
  | int n => exact isExact_num h
  | float hfinite => exact isExact_num h
  | @arr items _ ih =>
    cases room with
    | zero => cases h
    | succ inner =>
      obtain ⟨w, hw, hcanonical⟩ := Option.map_eq_some_iff.mp h
      obtain ⟨ws, hws, rfl⟩ := Option.map_eq_some_iff.mp hw
      rw [canonical, canonicalItems_eq_map, arr.injEq] at hcanonical
      exact isExact_arr fun v hv => ih v hv (reread?_of_items hws hcanonical v hv)
  | @obj members hordered _ ih =>
    cases room with
    | zero => cases h
    | succ inner =>
      obtain ⟨w, hw, hcanonical⟩ := Option.map_eq_some_iff.mp h
      obtain ⟨ws, hws, rfl⟩ := Option.map_eq_some_iff.mp hw
      have hkeys : Record.IsOrdered (ws.map fun m => (m.1, m.2.canonical)) := by
        rw [Record.IsOrdered, List.map_map]
        exact (keys_rereadMembers? hws).symm ▸ hordered
      rw [canonical, canonicalMembers_eq_map, hkeys.ofMembers_eq, obj.injEq] at hcanonical
      exact isExact_obj fun m hm => ih m hm (reread?_of_members hws hcanonical m hm)

theorem IsExact.mono {larger : Nat} (h : v.IsExact room) (hle : room ≤ larger) :
    v.IsExact larger :=
  ⟨h.numbers, h.depth.trans hle⟩

/-- What has no numeral is not read. -/
theorem isFinite_of_readsExactly {n : Number} (h : n.ReadsExactly) : n.IsFinite := by
  cases n with
  | int k => trivial
  | float x =>
    by_contra hx
    have hnone : scanNumber? "null".toList = none := rfl
    rw [Number.ReadsExactly, Number.reread?, numberText, if_neg (show ¬ x.isFinite = true from hx),
      hnone] at h
    cases h

theorem IsCanonical.isFinite_of_mem_numbers (hv : v.IsCanonical) : ∀ n ∈ v.numbers, n.IsFinite := by
  induction hv with
  | null | bool | str => exact List.forall_mem_nil _
  | int n => exact List.forall_mem_singleton.mpr trivial
  | float hfinite => exact List.forall_mem_singleton.mpr hfinite
  | @arr items _ ih =>
    rw [numbers, numbersOfItems_eq_flatMap]
    intro n hn
    obtain ⟨v, hv, hn⟩ := List.mem_flatMap.mp hn
    exact ih v hv n hn
  | @obj members _ _ ih =>
    rw [numbers, numbersOfMembers_eq_flatMap]
    intro n hn
    obtain ⟨m, hm, hn⟩ := List.mem_flatMap.mp hn
    exact ih m hm n hn

end Documents

section Lookups

variable {members ws : Record} {room : Nat}

theorem rereadMembers?_filter (h : rereadMembers? Number.reread? members room = some ws)
    (keep : String → Bool) :
    rereadMembers? Number.reread? (members.filter fun m => keep m.1) room =
      some (ws.filter fun m => keep m.1) := by
  induction members generalizing ws with
  | nil =>
    cases h
    rfl
  | cons m rest ih =>
    simp only [rereadMembers?, Option.bind_eq_bind, Option.bind_eq_some_iff,
      Option.map_eq_some_iff] at h
    obtain ⟨w, hw, others, hothers, rfl⟩ := h
    cases hkeep : keep m.1 <;> simp [hkeep, rereadMembers?, hw, ih hothers]

/-- A member is looked up where it stands, and is as its value is read. -/
theorem member?_reread (h : rereadMembers? Number.reread? members room = some ws)
    {names : List String} {v : Json} (hmember : Record.member? names members = some (some v)) :
    ∃ w, v.reread? Number.reread? room = some w ∧ Record.member? names ws = some (some w) := by
  have hkept := rereadMembers?_filter h names.contains
  rw [Record.member?] at hmember ⊢
  split at hmember
  · cases hmember
  · next m hfilter =>
    cases hmember
    rw [hfilter] at hkept
    simp only [rereadMembers?, Option.bind_eq_bind, Option.bind_eq_some_iff, Option.map_some,
      Option.some.injEq] at hkept
    obtain ⟨w, hw, hlist⟩ := hkept
    exact ⟨w, hw, by rw [← hlist]⟩
  · cases hmember

/-- The elements of a list are read one by one. -/
theorem exists_of_array? {α β : Type} {read : Json → Option β} {write : α → Json} {back : α → β}
    {xs : List α} {items : List Json}
    (h : rereadItems? Number.reread? (xs.map write) room = some items)
    (hread : array? read (.arr items) = some (xs.map back)) :
    ∀ x ∈ xs, ∃ v, (write x).reread? Number.reread? room = some v ∧ read v = some (back x) := by
  induction xs generalizing items with
  | nil => exact List.forall_mem_nil _
  | cons x rest ih =>
    simp only [List.map_cons, rereadItems?, Option.bind_eq_bind, Option.bind_eq_some_iff,
      Option.map_eq_some_iff] at h
    obtain ⟨w, hw, others, hothers, rfl⟩ := h
    simp only [array?, List.mapM_cons, Option.bind_eq_bind, Option.bind_eq_some_iff,
      Option.pure_def, List.map_cons, Option.some.injEq, List.cons.injEq] at hread
    obtain ⟨y, hy, ys, hys, rfl, rfl⟩ := hread
    exact List.forall_mem_cons.mpr ⟨⟨w, hw, hy⟩, ih hothers hys⟩

end Lookups

end Json

end EntityStore
