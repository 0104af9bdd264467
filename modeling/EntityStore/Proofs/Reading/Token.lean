import EntityStore.Proofs.Reading.Written

/-!
What of a statement tells its tables and columns: names, the points and parentheses between them,
and the few words behind which a table or a new name stands. The tokens of a text that is put
together are those of its parts, in their order, and none of its placeholders stands for anything
but a bound value.
-/
namespace EntityStore

namespace Reading

inductive Token where
  | name (s : String)
  | point
  | opening
  | closing
  /-- A word behind which a table stands. -/
  | table
  /-- The word behind which a new name stands. -/
  | as
deriving DecidableEq, Repr

def token? : Lexeme → Option Token
  | .name s => some (.name s)
  | .sign c =>
    if c = '.' then some .point
    else if c = '(' then some .opening
    else if c = ')' then some .closing
    else none
  | .word s =>
    if s ∈ ["FROM", "JOIN", "INTO", "UPDATE"] then some .table
    else if s = "AS" then some .as
    else none
  | .literal _ | .unclosed => none

def tokens (d : Dialect) (s : String) : List Token :=
  (lexemes d s).filterMap token?

def Tells (d : Dialect) (s : String) (ts : List Token) : Prop :=
  ∃ ls, Reads d s ls ∧ (∀ l ∈ ls, isPlaceholder d l = false) ∧ ls.filterMap token? = ts

def TellsThrough (d : Dialect) (s : String) (ts : List Token) : Prop :=
  ∃ ls, ReadsThrough d s ls ∧ (∀ l ∈ ls, isPlaceholder d l = false) ∧ ls.filterMap token? = ts

def isClean (s : String) : Bool :=
  [Dialect.mysql, .postgres, .sqlite].all fun d =>
    !(feed d .between s.toList).2.isOpen &&
      ((feed d .between s.toList).1 ++ (feed d .between s.toList).2.finish).all fun l =>
        !isPlaceholder d l

def isThrough (s : String) : Bool :=
  [Dialect.mysql, .postgres, .sqlite].all fun d =>
    (feed d .between s.toList).2 == .between &&
      (feed d .between s.toList).1.all fun l => !isPlaceholder d l

def isBetween (s : String) : Bool :=
  startsCut s.toList && isThrough s

def hasTokens (s : String) (ts : List Token) : Bool :=
  [Dialect.mysql, .postgres, .sqlite].all fun d => tokens d s == ts

section Text

variable {d : Dialect} {s t : String} {ts us : List Token}

private theorem mem_dialects (d : Dialect) : d ∈ [Dialect.mysql, .postgres, .sqlite] := by
  cases d <;> decide

theorem tells_of_isClean (d : Dialect) (s : String) (h : isClean s = true) :
    Tells d s (tokens d s) := by
  have hd := List.all_eq_true.mp h d (mem_dialects d)
  simp only [Bool.and_eq_true, Bool.not_eq_true', List.all_eq_true] at hd
  obtain ⟨hopen, hall⟩ := hd
  exact ⟨_, reads_of_feed rfl hopen, hall, rfl⟩

theorem tellsThrough_of_isThrough (d : Dialect) (s : String) (h : isThrough s = true) :
    TellsThrough d s (tokens d s) := by
  have hd := List.all_eq_true.mp h d (mem_dialects d)
  simp only [Bool.and_eq_true, beq_iff_eq, List.all_eq_true, Bool.not_eq_true'] at hd
  obtain ⟨hend, hall⟩ := hd
  refine ⟨_, readsThrough_of_feed (Prod.ext rfl hend), hall, ?_⟩
  rw [tokens, lexemes, scan, hend, ScanState.finish, List.append_nil]

/-- A fixed text with its tokens. -/
theorem tells_fixed (d : Dialect) (s : String) (ts : List Token) (h : isClean s = true)
    (hts : hasTokens s ts = true) : Tells d s ts := by
  have hd := List.all_eq_true.mp hts d (mem_dialects d)
  exact eq_of_beq hd ▸ tells_of_isClean d s h

/-- A fixed text that ends with a cut, with its tokens. -/
theorem opens (d : Dialect) (s : String) (ts : List Token) (h : isThrough s = true)
    (hts : hasTokens s ts = true) : TellsThrough d s ts := by
  have hd := List.all_eq_true.mp hts d (mem_dialects d)
  exact eq_of_beq hd ▸ tellsThrough_of_isThrough d s h

theorem TellsThrough.tells (h : TellsThrough d s ts) : Tells d s ts := by
  obtain ⟨ls, hreads, hplain, hts⟩ := h
  exact ⟨ls, hreads.reads, hplain, hts⟩

private theorem no_placeholder_append {ls ms : List Lexeme}
    (hls : ∀ l ∈ ls, isPlaceholder d l = false) (hms : ∀ l ∈ ms, isPlaceholder d l = false) :
    ∀ l ∈ ls ++ ms, isPlaceholder d l = false := by
  intro l hl
  rcases List.mem_append.mp hl with hleft | hright
  · exact hls l hleft
  · exact hms l hright

theorem TellsThrough.append (hs : TellsThrough d s ts) (ht : Tells d t us) :
    Tells d (s ++ t) (ts ++ us) := by
  obtain ⟨ls, hls, hlsPlain, rfl⟩ := hs
  obtain ⟨ms, hms, hmsPlain, rfl⟩ := ht
  exact ⟨_, hls.append hms, no_placeholder_append hlsPlain hmsPlain, List.filterMap_append⟩

/-- A text that begins with a cut, or is empty, may follow any other. -/
theorem Tells.append (hs : Tells d s ts) (ht : Tells d t us) (hcut : cuts t.toList = true) :
    Tells d (s ++ t) (ts ++ us) := by
  obtain ⟨ls, hls, hlsPlain, rfl⟩ := hs
  obtain ⟨ms, hms, hmsPlain, rfl⟩ := ht
  exact ⟨_, hls.append hcut hms, no_placeholder_append hlsPlain hmsPlain, List.filterMap_append⟩

/-- A text that begins with a cut may follow any other. -/
theorem Tells.appendThrough (hs : Tells d s ts) (hcut : startsCut t.toList = true)
    (ht : TellsThrough d t us) : TellsThrough d (s ++ t) (ts ++ us) := by
  obtain ⟨ls, hls, hlsPlain, rfl⟩ := hs
  obtain ⟨ms, hms, hmsPlain, rfl⟩ := ht
  exact ⟨_, hls.appendThrough hcut hms, no_placeholder_append hlsPlain hmsPlain,
    List.filterMap_append⟩

/-- A fixed text that begins and ends with a cut may stand between any others. -/
theorem Tells.through (hs : Tells d s ts) (t : String) (us : List Token)
    (ht : isBetween t = true) (hus : hasTokens t us = true) :
    TellsThrough d (s ++ t) (ts ++ us) := by
  simp only [isBetween, Bool.and_eq_true] at ht
  exact hs.appendThrough ht.1 (opens d t us ht.2 hus)

theorem tells_empty (d : Dialect) : Tells d "" [] :=
  tells_fixed d "" [] rfl rfl

theorem tells_quote (d : Dialect) (s : String) : Tells d (d.quote s) [.name s] :=
  ⟨_, reads_quote d s, by simp [isPlaceholder], rfl⟩

theorem tells_literal (d : Dialect) (s : String) : Tells d (Dialect.literal s) [] :=
  ⟨_, reads_literal d s, by simp [isPlaceholder], rfl⟩

theorem tells_qualified (d : Dialect) (source column : String) :
    Tells d (d.qualified source column) [.name source, .point, .name column] :=
  ⟨_, reads_qualified d source column, by cases d <;> simp [isPlaceholder], rfl⟩

/-- A word of letters, digits and underscores. -/
theorem tells_word (hne : s.toList ≠ [])
    (hs : ∀ c ∈ s.toList, c.isAlphanum = true ∨ c = '_') :
    Tells d s (token? (.word s)).toList := by
  refine ⟨_, reads_word hne ?_, ?_, ?_⟩
  · intro c hc
    rcases hs c hc with halnum | rfl
    · exact isWordChar_of_isAlphanum d halnum
    · cases d <;> decide
  · intro l hl
    rw [List.mem_singleton] at hl
    subst hl
    have hdollar : '$' ∉ s.toList := by
      intro hmem
      rcases hs _ hmem with halnum | hline
      · revert halnum
        decide
      · revert hline
        decide
    simp [isPlaceholder, hdollar]
  · cases h : token? (.word s) <;> simp [h]

/-- A word tells nothing when its first letter is that of no word that does. -/
theorem token?_word_eq_none {c : Char} {rest : List Char} (h : s.toList = c :: rest)
    (hc : c ∉ ['F', 'J', 'I', 'U', 'A']) : token? (.word s) = none := by
  have hfirst : ∀ w ∈ ["FROM", "JOIN", "INTO", "UPDATE", "AS"],
      w.toList.head? ∈ ['F', 'J', 'I', 'U', 'A'].map some := by decide
  have hne : s ∉ ["FROM", "JOIN", "INTO", "UPDATE", "AS"] := by
    intro hmem
    have hletter := hfirst s hmem
    rw [h, List.head?_cons, List.mem_map] at hletter
    obtain ⟨letter, hletter, heq⟩ := hletter
    exact hc (Option.some.inj heq ▸ hletter)
  simp only [List.mem_cons, List.not_mem_nil, or_false, not_or] at hne
  simp [token?, hne]

theorem tells_toString (d : Dialect) (n : Nat) : Tells d (toString n) [] := by
  obtain ⟨c, rest, hfirst⟩ := List.exists_cons_of_ne_nil (Text.toList_toString_ne_nil n)
  have hc : c ∉ ['F', 'J', 'I', 'U', 'A'] := by
    have hdigit : c.isDigit = true :=
      Text.isDigit_of_mem_toString (hfirst ▸ List.mem_cons_self ..)
    intro hletter
    simp only [List.mem_cons, List.not_mem_nil, or_false] at hletter
    rcases hletter with rfl | rfl | rfl | rfl | rfl <;> cases hdigit
  have hword : Tells d (toString n) (token? (.word (toString n))).toList :=
    tells_word (Text.toList_toString_ne_nil n) fun _ hc =>
      .inl (Text.isAlphanum_of_mem_toString hc)
  rwa [token?_word_eq_none hfirst hc] at hword

end Text

def itemToken? : Item → Option Token
  | .lexeme l => token? l
  | .value _ => none

theorem itemTokens_lexemes (ls : List Lexeme) :
    (ls.map Item.lexeme).filterMap itemToken? = ls.filterMap token? := by
  rw [List.filterMap_map]
  rfl

theorem token?_placeholder (d : Dialect) (index : Nat) {p : Parameter} (hp : p ≠ .null) :
    token? (placeholder d index p) = none := by
  cases d with
  | postgres =>
    obtain ⟨type, htype⟩ := Parameter.castType?_of_ne_null hp
    exact token?_word_eq_none (placeholder_toList htype index) (by decide)
  | _ => rfl

/-- Placeholders tell nothing. -/
theorem tokens_numbered {d : Dialect} {items : List Item} (h : Plain d items) (before : Nat) :
    (numbered d before items).filterMap token? = items.filterMap itemToken? := by
  induction items generalizing before with
  | nil => rfl
  | cons item rest ih =>
    obtain ⟨hlexemes, hnull⟩ := h
    have hrest : ∀ l, .lexeme l ∈ rest → isPlaceholder d l = false :=
      fun l hl => hlexemes l (List.mem_cons_of_mem _ hl)
    cases item with
    | lexeme l => simp only [numbered, List.filterMap_cons, itemToken?, ih ⟨hrest, hnull⟩ before]
    | value p =>
      simp only [values, List.mem_cons, not_or] at hnull
      have hp : p ≠ .null := fun he => hnull.1 he.symm
      simp only [numbered, List.filterMap_cons, itemToken?, token?_placeholder d _ hp,
        ih ⟨hrest, hnull.2⟩ (before + 1)]

end Reading

namespace Sql

open Reading

def Tells (d : Dialect) (x : Sql) (ts : List Token) : Prop :=
  ∃ items, Reads d x items ∧ Plain d items ∧ items.filterMap itemToken? = ts

def TellsThrough (d : Dialect) (x : Sql) (ts : List Token) : Prop :=
  ∃ items, ReadsThrough d x items ∧ Plain d items ∧ items.filterMap itemToken? = ts

variable {d : Dialect} {x y : Sql} {s : String} {ts us : List Token}

theorem tells_nil (d : Dialect) : Tells d [] [] :=
  ⟨[], (reads_nil d).reads, by simp [Plain, values], rfl⟩

theorem tells_text (h : Reading.Tells d s ts) : Tells d (text s) ts := by
  obtain ⟨ls, hls, hplain, rfl⟩ := h
  exact ⟨_, reads_text hls, plain_lexemes hplain, itemTokens_lexemes ls⟩

theorem tellsThrough_text (h : Reading.TellsThrough d s ts) : TellsThrough d (text s) ts := by
  obtain ⟨ls, hls, hplain, rfl⟩ := h
  exact ⟨_, readsThrough_text hls, plain_lexemes hplain, itemTokens_lexemes ls⟩

theorem tells_value (d : Dialect) (p : Parameter) : Tells d (value p) [] := by
  by_cases hp : p = .null
  · subst hp
    exact ⟨_, reads_value_null d, plain_lexeme (by cases d <;> decide), rfl⟩
  · exact ⟨_, reads_value d hp, plain_value hp, rfl⟩

theorem TellsThrough.tells (h : TellsThrough d x ts) : Tells d x ts := by
  obtain ⟨items, hreads, hplain, hts⟩ := h
  exact ⟨items, hreads.reads, hplain, hts⟩

theorem TellsThrough.append (hx : TellsThrough d x ts) (hy : Tells d y us) :
    Tells d (x ++ y) (ts ++ us) := by
  obtain ⟨items, hitems, hplain, rfl⟩ := hx
  obtain ⟨others, hothers, hothersPlain, rfl⟩ := hy
  exact ⟨_, hitems.append hothers, hplain.append hothersPlain, List.filterMap_append⟩

/-- A fixed text that begins and ends with a cut may follow any pieces. -/
theorem Tells.text (hx : Tells d x ts) (s : String) (us : List Token) (hs : isBetween s = true)
    (hus : hasTokens s us = true) : TellsThrough d (x ++ text s) (ts ++ us) := by
  simp only [isBetween, Bool.and_eq_true] at hs
  obtain ⟨items, hitems, hplain, rfl⟩ := hx
  obtain ⟨ls, hls, hlsPlain, rfl⟩ := opens d s us hs.2 hus
  refine ⟨_, hitems.appendText hs.1 hls, hplain.append (plain_lexemes hlsPlain), ?_⟩
  rw [List.filterMap_append, itemTokens_lexemes]

/-- A text that begins with a cut, or is empty, may end the pieces. -/
theorem Tells.last (hx : Tells d x ts) (hs : Reading.Tells d s us) (hcut : cuts s.toList = true) :
    Tells d (x ++ Sql.text s) (ts ++ us) := by
  obtain ⟨items, hitems, hplain, rfl⟩ := hx
  obtain ⟨ls, hls, hlsPlain, rfl⟩ := hs
  refine ⟨_, hitems.appendLast hcut hls, hplain.append (plain_lexemes hlsPlain), ?_⟩
  rw [List.filterMap_append, itemTokens_lexemes]

/-- The tokens of a statement are those of its pieces. -/
theorem Tells.tokens_eq (h : Tells d x ts) : tokens d (x.statement d).sql = ts := by
  obtain ⟨items, hreads, hplain, rfl⟩ := h
  have hlexemes := hreads.lexemes_write { dialect := d } rfl
  rw [tokens, ← tokens_numbered hplain 0]
  exact congrArg _ hlexemes

end Sql

end EntityStore
