import EntityStore.Json.Printer
import EntityStore.Json.Token
import EntityStore.Proofs.Json.Canonical
import EntityStore.Proofs.Text.Numeral

/-!
The tokens of a printed value. The text of each part is taken apart into the tokens of this part
wherever the text behind it ends a numeral, which every sign between two parts does.
-/
namespace EntityStore.Json

/-- Values in canonical form whose numbers are integers that documents hold exactly. -/
inductive IsWhole : Json → Prop
  | null : IsWhole .null
  | bool (b : Bool) : IsWhole (.bool b)
  | int {n : Int} : -0x8000000000000000 ≤ n → n < 0x10000000000000000 → IsWhole (.num (.int n))
  | str (s : String) : IsWhole (.str s)
  | arr {items : List Json} : (∀ v ∈ items, IsWhole v) → IsWhole (.arr items)
  | obj {members : Record} : members.IsOrdered → (∀ m ∈ members, IsWhole m.2) →
    IsWhole (.obj members)

theorem IsWhole.isCanonical {v : Json} (h : v.IsWhole) : v.IsCanonical := by
  induction h with
  | null => exact .null
  | bool b => exact .bool b
  | int _ _ => exact .int _
  | str s => exact .str s
  | arr _ ih => exact .arr ih
  | obj hordered _ ih => exact .obj hordered ih

def separated : List (List Token) → List Token
  | [] => []
  | ts :: rest => ts ++ rest.flatMap (Token.comma :: ·)

mutual

def tokensOf : Json → List Token
  | .null => [.null]
  | .bool b => [.bool b]
  | .num n => [.num n]
  | .str s => [.str s]
  | .arr items => .openArray :: (separated (tokensOfItems items) ++ [.closeArray])
  | .obj members => .openObject :: (separated (tokensOfMembers members) ++ [.closeObject])

def tokensOfItems : List Json → List (List Token)
  | [] => []
  | v :: rest => tokensOf v :: tokensOfItems rest

def tokensOfMembers : List (String × Json) → List (List Token)
  | [] => []
  | (k, v) :: rest => (.str k :: .colon :: tokensOf v) :: tokensOfMembers rest

end

theorem tokensOfItems_eq_map (items : List Json) : tokensOfItems items = items.map tokensOf := by
  induction items with
  | nil => rfl
  | cons v rest ih => rw [tokensOfItems, ih, List.map_cons]

theorem tokensOfMembers_eq_map (members : List (String × Json)) :
    tokensOfMembers members = members.map fun m => .str m.1 :: .colon :: tokensOf m.2 := by
  induction members with
  | nil => rfl
  | cons m rest ih => rw [tokensOfMembers, ih, List.map_cons]

mutual

def numbers : Json → List Number
  | .num n => [n]
  | .arr items => numbersOfItems items
  | .obj members => numbersOfMembers members
  | _ => []

def numbersOfItems : List Json → List Number
  | [] => []
  | v :: rest => numbers v ++ numbersOfItems rest

def numbersOfMembers : List (String × Json) → List Number
  | [] => []
  | (_, v) :: rest => numbers v ++ numbersOfMembers rest

end

theorem numbersOfItems_eq_flatMap (items : List Json) :
    numbersOfItems items = items.flatMap numbers := by
  induction items with
  | nil => rfl
  | cons v rest ih => rw [numbersOfItems, ih, List.flatMap_cons]

theorem numbersOfMembers_eq_flatMap (members : List (String × Json)) :
    numbersOfMembers members = members.flatMap fun m => m.2.numbers := by
  induction members with
  | nil => rfl
  | cons m rest ih => rw [numbersOfMembers, ih, List.flatMap_cons]

theorem itemTexts_eq_map (items : List Json) : itemTexts items = items.map text := by
  induction items with
  | nil => rfl
  | cons v rest ih => rw [itemTexts, ih, List.map_cons]

theorem memberTexts_eq_map (members : List (String × Json)) :
    memberTexts members = members.map fun m => stringText m.1 ++ ":" ++ m.2.text := by
  induction members with
  | nil => rfl
  | cons m rest ih => rw [memberTexts, ih, List.map_cons]

def Token.ofNumber : Option Number → Token
  | some n => .num n
  | none => .hugeNumber

def Token.reread (read : Number → Option Number) : Token → Token
  | .num n => ofNumber (read n)
  | t => t

theorem map_reread_some (ts : List Token) : ts.map (Token.reread some) = ts := by
  have hsame : Token.reread some = id := funext fun t => by cases t <;> rfl
  rw [hsame, List.map_id]

theorem map_reread_separated (read : Number → Option Number) (parts : List (List Token)) :
    (separated parts).map (Token.reread read) =
      separated (parts.map (List.map (Token.reread read))) := by
  cases parts with
  | nil => rfl
  | cons ts rest => simp [separated, List.map_flatMap, List.flatMap_map, Token.reread]

def endsNumeral : List Char → Bool
  | [] => true
  | c :: _ => !c.isDigit && c != '.' && c != 'e' && c != 'E'

structure Lexes (cs : List Char) (ts : List Token) (rest : List Char) : Prop where
  length_le : ts.length ≤ cs.length
  tokens_eq : ∀ fuel, tokensWithin? (fuel + ts.length) (cs ++ rest) =
    (tokensWithin? fuel rest).map (ts ++ ·)

section Lexes

variable {a b rest : List Char} {ts us : List Token}

theorem Lexes.nil (rest : List Char) : Lexes [] [] rest := by
  refine ⟨Nat.le_refl _, fun fuel => ?_⟩
  simp

theorem Lexes.append (ha : Lexes a ts (b ++ rest)) (hb : Lexes b us rest) :
    Lexes (a ++ b) (ts ++ us) rest := by
  constructor
  · rw [List.length_append, List.length_append]
    exact Nat.add_le_add ha.length_le hb.length_le
  · intro fuel
    have hfuel : fuel + (ts ++ us).length = fuel + us.length + ts.length := by
      rw [List.length_append]
      omega
    rw [hfuel, List.append_assoc, ha.tokens_eq, hb.tokens_eq, Option.map_map]
    refine congrArg (Option.map · _) (funext fun vs => ?_)
    exact (List.append_assoc ts us vs).symm

/-- A text that is one token. -/
theorem Lexes.of_scanToken {c : Char} {cs : List Char} {t : Token} (hc : isSpace c = false)
    (h : scanToken? (c :: (cs ++ rest)) = some (t, rest)) : Lexes (c :: cs) [t] rest := by
  constructor
  · exact Nat.succ_le_succ (Nat.zero_le _)
  · intro fuel
    have hfront : (c :: (cs ++ rest)).dropWhile isSpace = c :: (cs ++ rest) :=
      List.dropWhile_cons_of_neg (by simp [hc])
    rw [List.cons_append, List.length_singleton, tokensWithin?, hfront]
    simp only [h, Option.bind_eq_bind, Option.bind_some]
    cases tokensWithin? fuel rest <;> rfl

theorem Lexes.of_sign {c : Char} {t : Token} (hc : isSpace c = false)
    (h : ∀ rest, scanToken? (c :: rest) = some (t, rest)) (rest : List Char) :
    Lexes [c] [t] rest :=
  of_scanToken hc (h rest)

/-- All tokens of a text that has nothing behind it. -/
theorem Lexes.tokens?_eq (h : Lexes a ts []) : tokens? a = some ts := by
  have hfuel : a.length + 1 = a.length - ts.length + 1 + ts.length := by
    have := h.length_le
    omega
  have htokens := h.tokens_eq (a.length - ts.length + 1)
  rw [List.append_nil] at htokens
  rw [tokens?, hfuel, htokens]
  simp [tokensWithin?]

end Lexes

section Strings

theorem hexValue?_hexDigit {d : Nat} (h : d < 16) : hexValue? (hexDigit d) = some d := by
  have hall : ∀ d, d < 16 → hexValue? (hexDigit d) = some d := by decide
  exact hall d h

/-- A control is found by the number in its escape. -/
theorem scanString?_numericEscape {c : Char} (h : c.toNat < 0x20) (rest : List Char) :
    scanString? (numericEscape c.toNat ++ rest) =
      (scanString? rest).map fun r => (c :: r.1, r.2) := by
  have hquad : hexQuad? '0' '0' (hexDigit (c.toNat / 16)) (hexDigit (c.toNat % 16)) =
      some c.toNat := by
    have hhigh := @hexValue?_hexDigit (c.toNat / 16) (by omega)
    have hlow := @hexValue?_hexDigit (c.toNat % 16) (by omega)
    have hzero : hexValue? '0' = some 0 := rfl
    simp only [hexQuad?, hhigh, hlow, hzero, Option.bind_eq_bind, Option.bind_some,
      Option.some.injEq]
    omega
  have hhalf : isLowSurrogate c.toNat = false ∧ isHighSurrogate c.toNat = false := by
    simp only [isLowSurrogate, isHighSurrogate, Bool.and_eq_false_iff, decide_eq_false_iff_not]
    omega
  simp [numericEscape, scanString?, hquad, hhalf.1, hhalf.2, Char.ofNat_toNat]

theorem scanString?_plain {c : Char} (hquote : c ≠ '"') (hslash : c ≠ '\\')
    (hcontrol : ¬ c.toNat < 0x20) (rest : List Char) :
    scanString? (c :: rest) = (scanString? rest).map fun r => (c :: r.1, r.2) := by
  rw [scanString?.eq_def]
  split
  · next h => cases h
  · next h => exact absurd (List.cons.inj h).1 hquote
  · next h => exact absurd (List.cons.inj h).1 hslash
  · next h => exact absurd (List.cons.inj h).1 hslash
  · next h =>
    obtain ⟨rfl, rfl⟩ := List.cons.inj h
    simp [hcontrol, hslash]

/-- A character is found where its escape stands. -/
theorem scanString?_escapeChar (c : Char) (rest : List Char) :
    scanString? (escapeChar c ++ rest) = (scanString? rest).map fun r => (c :: r.1, r.2) := by
  by_cases hnamed : c = '"' ∨ c = '\\' ∨ c = '\x08' ∨ c = '\x0c' ∨ c = '\n' ∨ c = '\r' ∨ c = '\t'
  · rcases hnamed with rfl | rfl | rfl | rfl | rfl | rfl | rfl <;>
      simp [escapeChar, scanString?, plainEscape?]
  · simp only [not_or] at hnamed
    obtain ⟨hquote, hslash, hb, hf, hn, hr, ht⟩ := hnamed
    by_cases hcontrol : c.toNat < 0x20
    · have hescape : escapeChar c = numericEscape c.toNat := by
        simp only [escapeChar, hquote, hslash, hb, hf, hn, hr, ht, hcontrol, if_true, if_false]
      rw [hescape, scanString?_numericEscape hcontrol]
    · have hescape : escapeChar c = [c] := by
        simp only [escapeChar, hquote, hslash, hb, hf, hn, hr, ht, hcontrol, if_false]
      rw [hescape, List.singleton_append, scanString?_plain hquote hslash hcontrol]

theorem scanString?_escape (cs rest : List Char) :
    scanString? (escape cs ++ '"' :: rest) = some (cs, rest) := by
  induction cs with
  | nil => simp [escape, scanString?]
  | cons c tail ih =>
    rw [escape, List.flatMap_cons, List.append_assoc, scanString?_escapeChar, ← escape, ih]
    rfl

theorem lexes_stringText (s : String) (rest : List Char) :
    Lexes (stringText s).toList [.str s] rest := by
  rw [stringText, String.toList_ofList]
  refine Lexes.of_scanToken rfl ?_
  rw [List.append_assoc, List.singleton_append, scanToken?, stringToken?, scanString?_escape]
  simp

end Strings

section Numbers

variable {digits rest : List Char}

theorem splitDigits_append_of_head? (hdigits : ∀ c ∈ digits, c.isDigit = true)
    (hrest : ∀ c ∈ rest.head?, c.isDigit = false) :
    Numeral.splitDigits (digits ++ rest) = (digits, rest) := by
  have hnone : rest.takeWhile Char.isDigit = [] ∧ rest.dropWhile Char.isDigit = rest := by
    cases rest with
    | nil => exact ⟨rfl, rfl⟩
    | cons c tail =>
      have hc : ¬ c.isDigit = true := by simp [hrest c rfl]
      exact ⟨List.takeWhile_cons_of_neg hc, List.dropWhile_cons_of_neg hc⟩
  rw [Numeral.splitDigits, List.takeWhile_append_of_pos hdigits,
    List.dropWhile_append_of_pos hdigits, hnone.1, hnone.2, List.append_nil]

/-- Digits that may be the whole part of a number: zero stands only alone in front. -/
structure Leads (digits : List Char) : Prop where
  isDigit : ∀ c ∈ digits, c.isDigit = true
  first : digits = ['0'] ∨ ∃ c tail, digits = c :: tail ∧ c ≠ '0'

theorem leads_toDigits (n : Nat) : Leads (Nat.toDigits 10 n) := by
  refine ⟨Text.isDigit_toDigits n, ?_⟩
  rcases Nat.eq_zero_or_pos n with rfl | hn
  · exact .inl rfl
  · exact .inr (Text.toDigits_eq_cons hn)

theorem scanWhole?_append_of_head? (hdigits : Leads digits)
    (hrest : ∀ c ∈ rest.head?, c.isDigit = false) :
    scanWhole? (digits ++ rest) = some (digits, rest) := by
  rw [scanWhole?, splitDigits_append_of_head? hdigits.isDigit hrest]
  rcases hdigits.first with rfl | ⟨c, tail, rfl, hc⟩
  · rfl
  · split
    · next h => cases h
    · next h =>
      obtain ⟨h, -⟩ := Prod.mk.inj h
      exact absurd (List.cons.inj h).1 hc
    · next h =>
      obtain ⟨h, -⟩ := Prod.mk.inj h
      exact absurd (List.cons.inj h).1 hc
    · next h =>
      obtain ⟨rfl, rfl⟩ := Prod.mk.inj h
      rfl

theorem head?_of_endsNumeral (h : endsNumeral rest = true) :
    ∀ c ∈ rest.head?, c.isDigit = false := by
  intro c hc
  obtain ⟨tail, rfl⟩ := List.head?_eq_some_iff.mp hc
  simp only [endsNumeral, Bool.and_eq_true, Bool.not_eq_true'] at h
  exact h.1.1.1

theorem scanWhole?_toDigits (n : Nat) (hrest : endsNumeral rest = true) :
    scanWhole? (Nat.toDigits 10 n ++ rest) = some (Nat.toDigits 10 n, rest) :=
  scanWhole?_append_of_head? (leads_toDigits n) (head?_of_endsNumeral hrest)

/-- Behind the digits of an integer stand no fraction and no exponent. -/
theorem scans_of_endsNumeral (h : endsNumeral rest = true) : scanFraction? rest = some ([], rest) ∧
    Numeral.readScale? rest = some (0, rest) ∧ hasExponent rest = false := by
  cases rest with
  | nil => exact ⟨rfl, rfl, rfl⟩
  | cons c tail =>
    simp only [endsNumeral, Bool.and_eq_true, bne_iff_ne] at h
    obtain ⟨⟨⟨-, hpoint⟩, he⟩, hE⟩ := h
    simp [scanFraction?, Numeral.readScale?, hasExponent, hpoint, he, hE]

/-- The text of an integer in range is one token. -/
theorem scanNumber?_numberText {n : Int} (hlow : -0x8000000000000000 ≤ n)
    (hhigh : n < 0x10000000000000000)
    (hrest : endsNumeral rest = true) :
    scanNumber? ((numberText (.int n)).toList ++ rest) = some (.num (.int n), rest) := by
  obtain ⟨hfraction, hscale, hexponent⟩ := scans_of_endsNumeral hrest
  rw [numberText]
  cases n with
  | ofNat m =>
    have hfits : m ≤ Text.maxUInt64 := by
      rw [Int.ofNat_eq_natCast] at hhigh
      simp only [Text.maxUInt64]
      omega
    have hwhole := scanWhole?_toDigits m hrest
    have hvalue := Text.natFrom_toDigits m
    have hsign := Text.toDigits_append_ne_cons m (show '-'.isDigit = false from rfl) rest
    rw [Text.toList_toString_ofNat]
    unfold scanNumber?
    split
    next negative unsigned hsplit =>
    split at hsplit
    · next h => exact absurd h (hsign _)
    · obtain ⟨rfl, rfl⟩ := Prod.mk.inj hsplit
      simp [hwhole, hfraction, hscale, hexponent, number?, hvalue, hfits]
  | negSucc m =>
    have hwhole := scanWhole?_toDigits (m + 1) hrest
    have hvalue := Text.natFrom_toDigits (m + 1)
    have hfits : m + 1 ≤ Text.maxInt64 + 1 := by
      simp only [Text.maxInt64]
      omega
    rw [Text.toList_toString_negSucc, List.cons_append]
    unfold scanNumber?
    simp [hwhole, hfraction, hscale, hexponent, number?, hvalue, hfits, Int.negSucc_eq]

/-- A digit or a minus sign begins a number. -/
theorem scanToken?_of_number {c : Char} (hc : c.isDigit = true ∨ c = '-') (cs : List Char) :
    scanToken? (c :: cs) = scanNumber? (c :: cs) := by
  have hne : ∀ other : Char, other.isDigit = false → other ≠ '-' → c ≠ other := by
    rintro other hdigit hminus rfl
    rcases hc with hc | hc
    · rw [hdigit] at hc
      cases hc
    · exact hminus hc
  unfold scanToken?
  split
  case h_11 => rfl
  all_goals
    next h => exact absurd (List.cons.inj h).1 (hne _ rfl (by decide))

/-- A text that is one number. -/
theorem Lexes.of_scanNumber {c : Char} {cs : List Char} {t : Token}
    (hc : c.isDigit = true ∨ c = '-') (h : scanNumber? (c :: (cs ++ rest)) = some (t, rest)) :
    Lexes (c :: cs) [t] rest := by
  refine of_scanToken ?_ ((scanToken?_of_number hc _).trans h)
  rcases hc with hc | rfl
  · rw [Bool.eq_false_iff]
    intro hspace
    simp only [isSpace, Bool.or_eq_true, beq_iff_eq] at hspace
    rcases hspace with ((rfl | rfl) | rfl) | rfl <;> cases hc
  · rfl

theorem lexes_numberText {n : Int} (hlow : -0x8000000000000000 ≤ n)
    (hhigh : n < 0x10000000000000000)
    (hrest : endsNumeral rest = true) :
    Lexes (numberText (.int n)).toList [.num (.int n)] rest := by
  have hscan := scanNumber?_numberText hlow hhigh hrest
  have hfirst : ∃ c cs, (numberText (.int n)).toList = c :: cs ∧
      (c.isDigit = true ∨ c = '-') := by
    rw [numberText]
    cases n with
    | ofNat m =>
      obtain ⟨c, cs, hdigits⟩ := List.exists_cons_of_ne_nil (@Nat.toDigits_ne_nil m 10)
      refine ⟨c, cs, (Text.toList_toString_ofNat m).trans hdigits, .inl ?_⟩
      exact Text.isDigit_toDigits m c (hdigits ▸ List.mem_cons_self ..)
    | negSucc m => exact ⟨'-', _, Text.toList_toString_negSucc m, .inr rfl⟩
  obtain ⟨c, cs, htext, hc⟩ := hfirst
  rw [htext] at hscan ⊢
  exact Lexes.of_scanNumber hc hscan

end Numbers

section Values

variable {rest : List Char}

/-- Parts with commas between them are taken apart where each of them is. -/
theorem lexes_join {α : Type} {said : α → String} {tokens : α → List Token} {xs : List α}
    (h : ∀ x ∈ xs, ∀ rest, endsNumeral rest = true → Lexes (said x).toList (tokens x) rest)
    (hrest : endsNumeral rest = true) :
    Lexes (Text.join "," (xs.map said)).toList (separated (xs.map tokens)) rest := by
  induction xs with
  | nil => exact Lexes.nil rest
  | cons x others ih =>
    obtain ⟨hx, hothers⟩ := List.forall_mem_cons.mp h
    cases others with
    | nil => simpa [Text.join, separated] using hx rest hrest
    | cons y tail =>
      have hcomma : ∀ rest, Lexes [','] [.comma] rest := Lexes.of_sign rfl fun _ => rfl
      have hboth := (hx _ rfl).append ((hcomma _).append (ih hothers))
      simpa [Text.join, separated] using hboth

/-- The text of a value is taken apart into its tokens, with each number as its numeral is read. -/
theorem lexes_text {read : Number → Option Number} {v : Json}
    (h : ∀ n ∈ v.numbers, ∀ rest, endsNumeral rest = true →
      Lexes (numberText n).toList [.ofNumber (read n)] rest) :
    ∀ rest, endsNumeral rest = true →
      Lexes v.text.toList (v.tokensOf.map (Token.reread read)) rest := by
  induction v using Json.induction with
  | null => exact fun rest _ => Lexes.of_scanToken (c := 'n') rfl rfl
  | bool b =>
    intro rest _
    cases b with
    | true => exact Lexes.of_scanToken (c := 't') rfl rfl
    | false => exact Lexes.of_scanToken (c := 'f') rfl rfl
  | num n => exact h n (List.mem_singleton_self n)
  | str s => exact fun rest _ => lexes_stringText s rest
  | arr items ih =>
    intro rest hrest
    have hopen : ∀ rest, Lexes ['['] [.openArray] rest := Lexes.of_sign rfl fun _ => rfl
    have hclose : ∀ rest, Lexes [']'] [.closeArray] rest := Lexes.of_sign rfl fun _ => rfl
    rw [numbers, numbersOfItems_eq_flatMap] at h
    have hitem : ∀ v ∈ items, ∀ rest, endsNumeral rest = true →
        Lexes v.text.toList (v.tokensOf.map (Token.reread read)) rest :=
      fun v hv => ih v hv fun n hn => h n (List.mem_flatMap.mpr ⟨v, hv, hn⟩)
    have hitems := (hopen _).append ((lexes_join hitem rfl).append (hclose rest))
    simpa [text, tokensOf, itemTexts_eq_map, tokensOfItems_eq_map, map_reread_separated,
      Token.reread, Function.comp_def] using hitems
  | obj members ih =>
    intro rest hrest
    have hopen : ∀ rest, Lexes ['\x7b'] [.openObject] rest := Lexes.of_sign rfl fun _ => rfl
    have hclose : ∀ rest, Lexes ['\x7d'] [.closeObject] rest := Lexes.of_sign rfl fun _ => rfl
    have hcolon : ∀ rest, Lexes [':'] [.colon] rest := Lexes.of_sign rfl fun _ => rfl
    rw [numbers, numbersOfMembers_eq_flatMap] at h
    have hmember : ∀ m ∈ members, ∀ rest, endsNumeral rest = true →
        Lexes (stringText m.1 ++ ":" ++ m.2.text).toList
          (.str m.1 :: .colon :: m.2.tokensOf.map (Token.reread read)) rest := by
      intro m hm rest hrest
      have hvalue := ih m hm fun n hn => h n (List.mem_flatMap.mpr ⟨m, hm, hn⟩)
      have hall := (lexes_stringText m.1 _).append ((hcolon _).append (hvalue rest hrest))
      simpa using hall
    have hmembers := (hopen _).append ((lexes_join hmember rfl).append (hclose rest))
    simpa [text, tokensOf, memberTexts_eq_map, tokensOfMembers_eq_map, map_reread_separated,
      Token.reread, Function.comp_def] using hmembers

theorem IsWhole.int_of_mem_numbers {v : Json} (hv : v.IsWhole) :
    ∀ n ∈ v.numbers, ∃ k, n = .int k ∧ -0x8000000000000000 ≤ k ∧ k < 0x10000000000000000 := by
  induction hv with
  | null | bool | str => exact List.forall_mem_nil _
  | int hlow hhigh => exact List.forall_mem_singleton.mpr ⟨_, rfl, hlow, hhigh⟩
  | @arr items _ ih =>
    rw [numbers, numbersOfItems_eq_flatMap]
    intro n hn
    obtain ⟨v, hv, hn⟩ := List.mem_flatMap.mp hn
    exact ih v hv n hn
  | @obj members _ _ ih =>
    rw [numbers, numbersOfMembers_eq_flatMap]
    intro n hn
    obtain ⟨m, hm, hn⟩ := List.mem_flatMap.mp hn
    exact ih m hm n hn

/-- The text of a value whose numbers are whole is taken apart into its tokens. -/
theorem IsWhole.lexes {v : Json} (hv : v.IsWhole) : ∀ rest, endsNumeral rest = true →
    Lexes v.text.toList v.tokensOf rest := by
  have hnumbers : ∀ n ∈ v.numbers, ∀ rest, endsNumeral rest = true →
      Lexes (numberText n).toList [.ofNumber (some n)] rest := by
    intro n hn rest hrest
    obtain ⟨k, rfl, hlow, hhigh⟩ := hv.int_of_mem_numbers n hn
    exact lexes_numberText hlow hhigh hrest
  simpa only [map_reread_some] using lexes_text hnumbers

end Values

end EntityStore.Json
