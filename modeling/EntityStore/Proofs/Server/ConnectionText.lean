import EntityStore.Connection
import EntityStore.Proofs.Text.Numeral
import Mathlib.Data.List.TakeWhile

/-!
Connection strings as clients of PostgreSQL take them apart: keys and values, with an equals sign
between them and blanks around them. A value is a word or stands in quotes, and in both a backslash
takes the character behind it as it is. So texts in quotes end where they are meant to end, and
every setting is read back as it is, whatever characters it is made of.
-/
namespace EntityStore.ConnectionSettings

def isSpace (c : Char) : Bool :=
  c == ' ' || c == '\t' || c == '\n' || c == '\x0b' || c == '\x0c' || c == '\r'

def readQuoted? : List Char → Option (List Char × List Char)
  | [] => none
  | '\x27' :: cs => some ([], cs)
  | '\\' :: c :: cs => (readQuoted? cs).map fun r => (c :: r.1, r.2)
  | c :: cs => (readQuoted? cs).map fun r => (c :: r.1, r.2)

def readWord : List Char → List Char × List Char
  | [] => ([], [])
  | ['\\'] => ([], [])
  | '\\' :: c :: cs => (c :: (readWord cs).1, (readWord cs).2)
  | c :: cs => if isSpace c then ([], c :: cs) else (c :: (readWord cs).1, (readWord cs).2)

def readValue? : List Char → Option (List Char × List Char)
  | '\x27' :: cs => readQuoted? cs
  | cs => some (readWord cs)

def isKeyChar (c : Char) : Bool :=
  c != '=' && !isSpace c

def readPair? (cs : List Char) : Option ((String × String) × List Char) :=
  match (cs.dropWhile isKeyChar).dropWhile isSpace with
  | '=' :: rest =>
    (readValue? (rest.dropWhile isSpace)).map fun r =>
      ((String.ofList (cs.takeWhile isKeyChar), String.ofList r.1), r.2)
  | _ => none

section Lengths

theorem length_lt_of_readQuoted? (cs : List Char) : ∀ x rest, readQuoted? cs = some (x, rest) →
    rest.length < cs.length := by
  fun_induction readQuoted? cs with
  | case1 => exact fun _ _ h => nomatch h
  | case2 cs =>
    rintro _ _ h
    cases h
    exact Nat.lt_succ_self _
  | case3 c cs ih | case4 c cs _ _ ih =>
    intro x rest h
    obtain ⟨⟨y, after⟩, hread, heq⟩ := Option.map_eq_some_iff.mp h
    cases heq
    have hlt := ih _ _ hread
    simp only [List.length_cons]
    omega

theorem length_readWord_le (cs : List Char) : (readWord cs).2.length ≤ cs.length := by
  fun_induction readWord cs with
  | case1 | case2 => exact Nat.zero_le _
  | case3 | case5 =>
    simp only [List.length_cons]
    omega
  | case4 => exact Nat.le_refl _

theorem length_le_of_readValue? {cs x rest : List Char} (h : readValue? cs = some (x, rest)) :
    rest.length ≤ cs.length := by
  unfold readValue? at h
  split at h
  · exact Nat.le_succ_of_le (Nat.le_of_lt (length_lt_of_readQuoted? _ _ _ h))
  · have hrest : (readWord cs).2 = rest := congrArg Prod.snd (Option.some.inj h)
    exact hrest ▸ length_readWord_le cs

/-- A pair takes at least its equals sign. -/
theorem length_lt_of_readPair? {cs rest : List Char} {pair : String × String}
    (h : readPair? cs = some (pair, rest)) : rest.length < cs.length := by
  unfold readPair? at h
  split at h
  · next after hafter =>
    obtain ⟨⟨value, behind⟩, hvalue, heq⟩ := Option.map_eq_some_iff.mp h
    cases heq
    have hle := length_le_of_readValue? hvalue
    have hblanks := List.length_dropWhile_le isSpace after
    have hkey := List.length_dropWhile_le isKeyChar cs
    have hsign := List.length_dropWhile_le isSpace (cs.dropWhile isKeyChar)
    rw [hafter, List.length_cons] at hsign
    dsimp only at *
    omega
  · cases h

end Lengths

def readPairs? (cs : List Char) : Option (List (String × String)) :=
  if cs.all isSpace then some []
  else
    match _h : readPair? (cs.dropWhile isSpace) with
    | none => none
    | some (pair, rest) => (readPairs? rest).map (pair :: ·)
termination_by cs.length
decreasing_by exact Nat.lt_of_lt_of_le (length_lt_of_readPair? _h) (List.length_dropWhile_le _ _)

def Ends (rest : List Char) : Prop :=
  ∀ c ∈ rest.head?, isSpace c = true

def ReadsAs (written value : String) : Prop :=
  ∀ rest, Ends rest →
    readValue? ((written.toList ++ rest).dropWhile isSpace) = some (value.toList, rest)

section Values

variable {cs rest : List Char} {c : Char}

theorem readQuoted?_ordinary (hquote : c ≠ '\x27') (hslash : c ≠ '\\') :
    readQuoted? (c :: cs) = (readQuoted? cs).map fun r => (c :: r.1, r.2) := by
  rw [readQuoted?]
  · exact hquote
  · exact fun _ _ h => absurd h hslash

/-- Every character that would end the value or change the next one has its backslash. -/
theorem readQuoted?_escapeValue (cs rest : List Char) :
    readQuoted? (escapeValue cs ++ '\x27' :: rest) = some (cs, rest) := by
  induction cs with
  | nil => rfl
  | cons c cs ih =>
    rw [escapeValue]
    split
    · rw [List.cons_append, List.cons_append, readQuoted?, ih]
      rfl
    · next hc =>
      obtain ⟨hslash, hquote⟩ := not_or.mp hc
      rw [List.cons_append, readQuoted?_ordinary hquote hslash, ih]
      rfl

theorem readsAs_quoteValue (s : String) : ReadsAs (quoteValue s) s := by
  intro rest _
  have hquoted : (quoteValue s).toList ++ rest =
      '\x27' :: (escapeValue s.toList ++ '\x27' :: rest) := by
    rw [quoteValue, String.toList_ofList, List.cons_append, List.append_assoc,
      List.singleton_append]
  rw [hquoted, List.dropWhile_cons_of_neg (by decide)]
  exact readQuoted?_escapeValue s.toList rest

/-- Letters and digits stand for themselves. -/
theorem ordinary_of_isAlphanum (h : c.isAlphanum = true) :
    isSpace c = false ∧ c ≠ '\\' ∧ c ≠ '\x27' := by
  have hne : ∀ other : Char, other.isAlphanum = false → c ≠ other := by
    rintro other hother rfl
    rw [h] at hother
    cases hother
  refine ⟨?_, hne _ rfl, hne _ rfl⟩
  simp only [isSpace, Bool.or_eq_false_iff, beq_eq_false_iff_ne]
  exact ⟨⟨⟨⟨⟨hne _ rfl, hne _ rfl⟩, hne _ rfl⟩, hne _ rfl⟩, hne _ rfl⟩, hne _ rfl⟩

theorem readWord_of_ends (h : Ends rest) : readWord rest = ([], rest) := by
  cases rest with
  | nil => rfl
  | cons c cs =>
    have hc : isSpace c = true := h c rfl
    have hslash : c ≠ '\\' := by
      rintro rfl
      cases hc
    rw [readWord]
    · exact if_pos hc
    · exact fun hc' _ => hslash hc'
    · exact fun _ _ hc' _ => hslash hc'

theorem readWord_append {w : List Char} (hw : ∀ c ∈ w, c.isAlphanum = true) (hrest : Ends rest) :
    readWord (w ++ rest) = (w, rest) := by
  induction w with
  | nil => exact readWord_of_ends hrest
  | cons c w ih =>
    obtain ⟨hc, hw⟩ := List.forall_mem_cons.mp hw
    obtain ⟨hspace, hslash, -⟩ := ordinary_of_isAlphanum hc
    rw [List.cons_append, readWord, hspace, ih hw]
    · rfl
    · exact fun hc' _ => hslash hc'
    · exact fun _ _ hc' _ => hslash hc'

theorem readsAs_word {s : String} (hne : s.toList ≠ []) (hs : ∀ c ∈ s.toList, c.isAlphanum = true) :
    ReadsAs s s := by
  intro rest hrest
  obtain ⟨c, w, hw⟩ := List.exists_cons_of_ne_nil hne
  obtain ⟨hspace, -, hquote⟩ := ordinary_of_isAlphanum (hs c (hw ▸ List.mem_cons_self ..))
  have hread := readWord_append hs hrest
  rw [hw] at hread ⊢
  rw [List.cons_append] at hread ⊢
  rw [List.dropWhile_cons_of_neg (by simp [hspace]), readValue?, hread]
  exact fun _ h => hquote (List.cons.inj h).1

end Values

structure Written (written read : String × String) : Prop where
  key_eq : written.1 = read.1
  key : ∀ c ∈ read.1.toList, isKeyChar c = true
  value : ReadsAs written.2 read.2

def Written.text (written : String × String) : String :=
  written.1 ++ "=" ++ written.2

section Pairs

variable {written read : String × String} {blanks rest : List Char}

theorem toList_text (written : String × String) (rest : List Char) :
    (Written.text written).toList ++ rest =
      written.1.toList ++ '=' :: (written.2.toList ++ rest) := by
  simp [Written.text, String.toList_append, List.append_assoc]

theorem dropWhile_blanks (hblanks : ∀ c ∈ blanks, isSpace c = true)
    (hrest : ∀ c ∈ rest.head?, isSpace c = false) :
    (blanks ++ rest).dropWhile isSpace = rest := by
  rw [List.dropWhile_append_of_pos hblanks]
  cases rest with
  | nil => rfl
  | cons c cs => exact List.dropWhile_cons_of_neg (by simp [hrest c rfl])

theorem isSpace_of_isKeyChar {c : Char} (h : isKeyChar c = true) : isSpace c = false := by
  simpa using (Bool.and_eq_true_iff.mp h).2

/-- A pair begins with its key, or with the equals sign where the key is empty. -/
theorem Written.head?_text (h : Written written read) (rest : List Char) :
    ∀ c ∈ ((Written.text written).toList ++ rest).head?, isSpace c = false := by
  rw [toList_text, h.key_eq]
  cases hkey : read.1.toList with
  | nil =>
    rintro c ⟨⟩
    rfl
  | cons d key =>
    rintro c ⟨⟩
    exact isSpace_of_isKeyChar (h.key d (hkey ▸ List.mem_cons_self ..))

theorem Written.readPair?_eq (h : Written written read) (hrest : Ends rest) :
    readPair? ((Written.text written).toList ++ rest) = some (read, rest) := by
  have htake : (read.1.toList ++ '=' :: (written.2.toList ++ rest)).takeWhile isKeyChar =
      read.1.toList := by
    rw [List.takeWhile_append_of_pos h.key, List.takeWhile_cons_of_neg (by decide),
      List.append_nil]
  have hdrop : (read.1.toList ++ '=' :: (written.2.toList ++ rest)).dropWhile isKeyChar =
      '=' :: (written.2.toList ++ rest) := by
    rw [List.dropWhile_append_of_pos h.key, List.dropWhile_cons_of_neg (by decide)]
  rw [toList_text, h.key_eq, readPair?, htake, hdrop, List.dropWhile_cons_of_neg (by decide)]
  simp only [h.value rest hrest, Option.map_some, String.ofList_toList]

/-- Blanks in front of a pair are passed over. -/
theorem Written.readPairs?_eq (h : Written written read)
    (hblanks : ∀ c ∈ blanks, isSpace c = true) (hrest : Ends rest) :
    readPairs? (blanks ++ ((Written.text written).toList ++ rest)) =
      (readPairs? rest).map (read :: ·) := by
  have hpair := h.readPair?_eq hrest
  have hsome : ¬ (blanks ++ ((Written.text written).toList ++ rest)).all isSpace = true := by
    intro hall
    have hequals : isSpace '=' = true :=
      List.all_eq_true.mp hall '=' (by rw [toList_text]; simp)
    cases hequals
  rw [readPairs?, if_neg hsome, dropWhile_blanks hblanks (h.head?_text rest)]
  split
  · next hnone =>
    rw [hpair] at hnone
    cases hnone
  · next heq =>
    rw [hpair] at heq
    cases heq
    rfl

/-- Pairs with a blank between neighbours are read as what they were written for. -/
theorem readPairs?_join {ps qs : List (String × String)} (h : List.Forall₂ Written ps qs)
    (hblanks : ∀ c ∈ blanks, isSpace c = true) :
    readPairs? (blanks ++ (Text.join " " (ps.map Written.text)).toList) = some qs := by
  induction h generalizing blanks with
  | nil =>
    have hall : (blanks ++ (Text.join " " []).toList).all isSpace = true :=
      List.all_eq_true.mpr (by simpa [Text.join] using hblanks)
    exact (readPairs?.eq_def _).trans (if_pos hall)
  | @cons p q ps qs hp hrest ih =>
    cases hrest with
    | nil =>
      have hend : Ends [] := fun _ hc => nomatch hc
      have hread := hp.readPairs?_eq hblanks hend
      rw [List.append_nil] at hread
      exact hread.trans (by rw [readPairs?.eq_def]; rfl)
    | @cons next _ others _ hnext htail =>
      have hspace : ∀ c ∈ [' '], isSpace c = true := by simp [isSpace]
      have hothers := ih hspace
      have hblank : Ends (' ' :: (Text.join " " ((next :: others).map Written.text)).toList) := by
        rintro c ⟨⟩
        rfl
      have hread := hp.readPairs?_eq hblanks hblank
      have hsplit : Text.join " " ((p :: next :: others).map Written.text) =
          Written.text p ++ " " ++ Text.join " " ((next :: others).map Written.text) := rfl
      rw [hsplit, String.toList_append, String.toList_append, List.append_assoc]
      exact hread.trans (congrArg (Option.map (q :: ·)) hothers)

example :
    readPairs? "host='a' password='x\\' host=\\'b\\\\'".toList =
      some [("host", "a"), ("password", "x' host='b\\")] := by cbv

end Pairs

section Settings

variable (c : ConnectionSettings)

def said : List (String × String) :=
  [("host", c.host), ("port", toString c.port), ("dbname", c.database), ("user", c.username),
    ("password", c.password), ("sslmode", c.sslMode.keyword), ("connect_timeout", "10")]

theorem readsAs_toString (n : Nat) : ReadsAs (toString n) (toString n) :=
  readsAs_word (Text.toList_toString_ne_nil n) fun _ => Text.isAlphanum_of_mem_toString

theorem readsAs_keyword (m : SslMode) : ReadsAs m.keyword m.keyword := by
  cases m <;> exact readsAs_word (by decide) (List.all_eq_true.mp (by decide))

theorem written_said : List.Forall₂ Written c.pairs c.said := by
  have hwritten : ∀ {key written value : String}, key.toList.all isKeyChar = true →
      ReadsAs written value → Written (key, written) (key, value) :=
    fun hkey hvalue => ⟨rfl, List.all_eq_true.mp hkey, hvalue⟩
  exact .cons (hwritten rfl (readsAs_quoteValue c.host)) <|
    .cons (hwritten rfl (readsAs_toString c.port)) <|
    .cons (hwritten rfl (readsAs_quoteValue c.database)) <|
    .cons (hwritten rfl (readsAs_quoteValue c.username)) <|
    .cons (hwritten rfl (readsAs_quoteValue c.password)) <|
    .cons (hwritten rfl (readsAs_keyword c.sslMode)) <|
    .cons (hwritten rfl (readsAs_toString 10)) .nil

theorem readPairs?_connectionString : readPairs? c.connectionString.toList = some c.said := by
  have htext : c.connectionString = Text.join " " (c.pairs.map Written.text) := rfl
  rw [htext, ← readPairs?_join c.written_said (List.forall_mem_nil _), List.nil_append]

/-- Connection strings that say the same are of the same address, account and mode. -/
theorem connectionString_eq_iff (other : ConnectionSettings) :
    c.connectionString = other.connectionString ↔
      c.host = other.host ∧ c.port = other.port ∧ c.database = other.database ∧
      c.username = other.username ∧ c.password = other.password ∧
      c.sslMode.keyword = other.sslMode.keyword := by
  constructor
  · intro heq
    have hsaid := c.readPairs?_connectionString
    rw [heq, other.readPairs?_connectionString] at hsaid
    have hvalues := congrArg (List.map Prod.snd) (Option.some.inj hsaid)
    simp only [said, List.map_cons, List.cons.injEq] at hvalues
    obtain ⟨hhost, hport, hdatabase, husername, hpassword, hmode, -⟩ := hvalues
    have hnumber := Text.readNat?_toString other.port
    rw [hport, Text.readNat?_toString] at hnumber
    exact ⟨hhost.symm, Option.some.inj hnumber, hdatabase.symm, husername.symm, hpassword.symm,
      hmode.symm⟩
  · rintro ⟨hhost, hport, hdatabase, husername, hpassword, hmode⟩
    simp only [connectionString, pairs, hhost, hport, hdatabase, husername, hpassword, hmode]

end Settings

/-- A connection string is read as each of its keys once, with the host, the database, the account
and the password as they are and the port as a numeral of its number. So no text takes the place of
another, and what differs in one of these is never written alike. -/
theorem settings_read_back (c other : ConnectionSettings) :
    (∃ port, readPairs? c.connectionString.toList =
      some [("host", c.host), ("port", port), ("dbname", c.database), ("user", c.username),
        ("password", c.password), ("sslmode", c.sslMode.keyword), ("connect_timeout", "10")] ∧
      Text.readNat? port.toList = some c.port) ∧
    (c.connectionString = other.connectionString ↔
      c.host = other.host ∧ c.port = other.port ∧ c.database = other.database ∧
      c.username = other.username ∧ c.password = other.password ∧
      c.sslMode.keyword = other.sslMode.keyword) :=
  ⟨⟨toString c.port, c.readPairs?_connectionString, Text.readNat?_toString c.port⟩,
    c.connectionString_eq_iff other⟩

end EntityStore.ConnectionSettings
