import EntityStore.Proofs.Reading.Clean
import EntityStore.Proofs.Reading.Predicate
import EntityStore.Proofs.Text.Numeral
import EntityStore.Selection

/-!
The page that a statement asks for: what stands behind the word `LIMIT` outside all parentheses. A
text without such a word is passed, and it ends as deep in parentheses as it begins when it closes
those that it opens.
-/
namespace EntityStore

namespace Reading

def depthBehind (depth : Nat) (l : Lexeme) : Nat :=
  if l = .sign '(' then depth + 1 else if l = .sign ')' then depth - 1 else depth

def limitClause? (depth : Nat) : List Lexeme → Option (List Lexeme)
  | [] => none
  | l :: rest =>
    if depth = 0 ∧ l = .word "LIMIT" then some rest else limitClause? (depthBehind depth l) rest

/-- The page that a clause asks for. A comma has the offset before it, the word `OFFSET` has it
behind it, and one number alone is a limit. -/
def readPage? (d : Dialect) : List Lexeme → Option Page
  | [.word limit] => do
    let n ← Text.readNat? limit.toList
    some ⟨0, n⟩
  | [.word offset, .sign ',', .word limit] =>
    if d = .postgres then none
    else do
      let skipped ← Text.readNat? offset.toList
      let n ← Text.readNat? limit.toList
      some ⟨skipped, n⟩
  | [.word limit, .word "OFFSET", .word offset] => do
    let n ← Text.readNat? limit.toList
    let skipped ← Text.readNat? offset.toList
    some ⟨skipped, n⟩
  | _ => none

/-- The depth behind lexemes that have no word `LIMIT` outside all parentheses, and close no
parenthesis there. -/
def passed? (depth : Nat) : List Lexeme → Option Nat
  | [] => some depth
  | l :: rest =>
    if depth = 0 ∧ (l = .word "LIMIT" ∨ l = .sign ')') then none
    else passed? (depthBehind depth l) rest

section Passed

variable {a b : Nat} {ls ms : List Lexeme}

theorem passed?_append (a : Nat) (ls ms : List Lexeme) :
    passed? a (ls ++ ms) = (passed? a ls).bind fun b => passed? b ms := by
  induction ls generalizing a with
  | nil => rfl
  | cons l rest ih =>
    rw [List.cons_append, passed?, passed?]
    split
    · rfl
    · exact ih _

theorem passed?_append_of (hls : passed? a ls = some b) : passed? a (ls ++ ms) = passed? b ms := by
  rw [passed?_append, hls, Option.bind_some]

/-- What is passed holds no clause of a page. -/
theorem limitClause?_append (hls : passed? a ls = some b) :
    limitClause? a (ls ++ ms) = limitClause? b ms := by
  induction ls generalizing a with
  | nil =>
    obtain rfl := Option.some.inj hls
    rfl
  | cons l rest ih =>
    rw [passed?] at hls
    split at hls
    · cases hls
    · next hgo =>
      have hno : ¬(a = 0 ∧ l = .word "LIMIT") := fun h => hgo ⟨h.1, .inl h.2⟩
      rw [List.cons_append, limitClause?, if_neg hno, ih hls]

/-- What is passed outside all parentheses is passed inside of others. -/
theorem passed?_add (hls : passed? a ls = some b) (n : Nat) :
    passed? (a + n) ls = some (b + n) := by
  induction ls generalizing a with
  | nil =>
    obtain rfl := Option.some.inj hls
    rfl
  | cons l rest ih =>
    rw [passed?] at hls ⊢
    split at hls
    · cases hls
    · next hgo =>
      have hdepth : depthBehind (a + n) l = depthBehind a l + n := by
        unfold depthBehind
        split
        · omega
        · split
          · next hclose =>
            have ha : a ≠ 0 := fun h => hgo ⟨h, .inr hclose⟩
            omega
          · rfl
      have hstill : ¬(a + n = 0 ∧ (l = .word "LIMIT" ∨ l = .sign ')')) :=
        fun h => hgo ⟨by omega, h.2⟩
      rw [if_neg hstill, hdepth, ih hls]

theorem passed?_level (hls : passed? 0 ls = some 0) (n : Nat) : passed? n ls = some n := by
  simpa using passed?_add hls n

end Passed

def Passes (d : Dialect) (s : String) (a b : Nat) : Prop :=
  ∃ ls, Reads d s ls ∧ passed? a ls = some b

def PassesThrough (d : Dialect) (s : String) (a b : Nat) : Prop :=
  ∃ ls, ReadsThrough d s ls ∧ passed? a ls = some b

def leads (s : String) (a b : Nat) : Bool :=
  [Dialect.mysql, .postgres, .sqlite].all fun d => passed? a (lexemes d s) == some b

section Text

variable {d : Dialect} {s t : String} {a b c : Nat}

private theorem leads_iff :
    leads s a b = true ↔ ∀ d : Dialect, passed? a (lexemes d s) = some b := by
  simp only [leads, List.all_cons, List.all_nil, Bool.and_true, Bool.and_eq_true, beq_iff_eq]
  exact ⟨fun ⟨hm, hp, hs⟩ d => by cases d <;> assumption, fun h => ⟨h _, h _, h _⟩⟩

/-- A fixed text that ends with a cut. -/
theorem passesThrough_fixed (d : Dialect) (s : String) (a b : Nat) (h : isThrough s = true)
    (hleads : leads s a b = true) : PassesThrough d s a b := by
  obtain ⟨ls, hls, -, -⟩ := tellsThrough_of_isThrough d s h
  exact ⟨ls, hls, hls.reads.lexemes_eq ▸ leads_iff.mp hleads d⟩

theorem passes_fixed (d : Dialect) (s : String) (a b : Nat) (h : isClean s = true)
    (hleads : leads s a b = true) : Passes d s a b := by
  obtain ⟨ls, hls, -, -⟩ := tells_of_isClean d s h
  exact ⟨ls, hls, hls.lexemes_eq ▸ leads_iff.mp hleads d⟩

theorem PassesThrough.passes (h : PassesThrough d s a b) : Passes d s a b := by
  obtain ⟨ls, hls, hpassed⟩ := h
  exact ⟨ls, hls.reads, hpassed⟩

theorem PassesThrough.append (hs : PassesThrough d s a b) (ht : Passes d t b c) :
    Passes d (s ++ t) a c := by
  obtain ⟨ls, hls, hpassed⟩ := hs
  obtain ⟨ms, hms, hrest⟩ := ht
  exact ⟨_, hls.append hms, (passed?_append_of hpassed).trans hrest⟩

/-- A fixed text that begins and ends with a cut may stand between any others. -/
theorem Passes.through (hs : Passes d s a b) (t : String) (c : Nat) (ht : isBetween t = true)
    (hleads : leads t b c = true) : PassesThrough d (s ++ t) a c := by
  simp only [isBetween, Bool.and_eq_true] at ht
  obtain ⟨ls, hls, hpassed⟩ := hs
  obtain ⟨ms, hms, hrest⟩ := passesThrough_fixed d t b c ht.2 hleads
  exact ⟨_, hls.appendThrough ht.1 hms, (passed?_append_of hpassed).trans hrest⟩

theorem Passes.level (h : Passes d s 0 0) (n : Nat) : Passes d s n n := by
  obtain ⟨ls, hls, hpassed⟩ := h
  exact ⟨ls, hls, passed?_level hpassed n⟩

theorem passes_quote (d : Dialect) (s : String) (n : Nat) : Passes d (d.quote s) n n :=
  Passes.level ⟨_, reads_quote d s, rfl⟩ n

theorem passes_literal (d : Dialect) (s : String) (n : Nat) : Passes d (Dialect.literal s) n n :=
  Passes.level ⟨_, reads_literal d s, rfl⟩ n

theorem passes_qualified (d : Dialect) (source column : String) (n : Nat) :
    Passes d (d.qualified source column) n n :=
  Passes.level ⟨_, reads_qualified d source column, rfl⟩ n

theorem passed?_expression (e : Expression) : passed? 0 (expressionLexemes e) = some 0 := by
  cases e <;> rfl

theorem passes_expression (d : Dialect) (e : Expression) (n : Nat) : Passes d (e.sql d) n n :=
  Passes.level ⟨_, reads_expression d e, passed?_expression e⟩ n

theorem passes_join {separator : String} (hseparator : isBetween separator = true)
    (hleads : leads separator 0 0 = true) {texts : List String}
    (h : ∀ s ∈ texts, Passes d s 0 0) : Passes d (Text.join separator texts) 0 0 := by
  refine join_of_forall (passes_fixed d "" 0 0 rfl rfl) (fun _ _ hs ht => ?_) h
  exact (hs.through separator 0 hseparator hleads).append ht

end Text

def Level (d : Dialect) (items : List Item) : Prop :=
  ∀ before, passed? 0 (numbered d before items) = some 0

section Items

variable {d : Dialect} {items others : List Item}

theorem level_lexemes {ls : List Lexeme} (h : passed? 0 ls = some 0) :
    Level d (ls.map .lexeme) := by
  intro before
  rw [numbered_lexemes, h]

theorem Level.append (hitems : Level d items) (hothers : Level d others) :
    Level d (items ++ others) := by
  intro before
  rw [numbered_append, passed?_append_of (hitems before), hothers]

theorem Level.enclosed (h : Level d items) :
    Level d ([.lexeme (.sign '(')] ++ items ++ [.lexeme (.sign ')')]) := by
  intro before
  rw [List.append_assoc]
  change passed? 1 (numbered d before (items ++ [.lexeme (.sign ')')])) = some 0
  rw [numbered_append, passed?_append_of (passed?_level (h before) 1)]
  rfl

theorem level_joinItems {separator : List Lexeme} (hseparator : passed? 0 separator = some 0)
    {parts : List (List Item)} (h : ∀ part ∈ parts, Level d part) :
    Level d (joinItems separator parts) := by
  refine joinItems_of_forall (fun _ => rfl) (fun _ _ hs ht => ?_) h
  exact (hs.append (level_lexemes hseparator)).append ht

theorem level_value (d : Dialect) {p : Parameter} (hp : p ≠ .null) : Level d [.value p] := by
  intro before
  have hplain : placeholder d (before + 1) p ≠ .word "LIMIT" ∧
      placeholder d (before + 1) p ≠ .sign '(' ∧ placeholder d (before + 1) p ≠ .sign ')' := by
    cases d with
    | postgres =>
      obtain ⟨type, htype⟩ := Parameter.castType?_of_ne_null hp
      refine ⟨fun heq => ?_, by simp [placeholder], by simp [placeholder]⟩
      have hword := congrArg String.toList (Lexeme.word.inj heq)
      rw [placeholder_toList htype] at hword
      exact absurd (List.cons.inj hword).1 (by decide)
    | _ => simp [placeholder]
  simp [numbered, passed?, depthBehind, hplain]

theorem level_operand (d : Dialect) (o : Operand) : Level d o.items := by
  cases o with
  | expression e => exact level_lexemes (passed?_expression e)
  | value p =>
    cases p with
    | null => exact fun _ => rfl
    | _ => exact level_value d (by simp)

theorem level_predicate (d : Dialect) (p : Predicate) : Level d p.items := by
  induction p using Predicate.induction with
  | compare left operator right =>
    have hoperator : passed? 0 (operatorLexemes operator) = some 0 := by
      cases operator <;> rfl
    have hinner := ((level_lexemes (d := d) (passed?_expression left)).append
      (level_lexemes hoperator)).append (level_operand d right)
    simpa [Predicate.items] using hinner.enclosed
  | connect operator children ih =>
    have hseparator : passed? 0 [Lexeme.word operator.symbol] = some 0 := by
      cases operator <;> rfl
    refine Level.enclosed (level_joinItems hseparator ?_)
    rw [Predicate.itemsOf_eq_map]
    intro part hpart
    obtain ⟨p, hp, rfl⟩ := List.mem_map.mp hpart
    exact ih p hp

end Items

end Reading

namespace Sql

open Reading

def Passes (d : Dialect) (x : Sql) : Prop :=
  ∃ items, Reads d x items ∧ Level d items

variable {d : Dialect} {x last : Sql} {s separator : String} {xs : List Sql}

theorem passes_text (h : Reading.Passes d s 0 0) : Passes d (text s) := by
  obtain ⟨ls, hls, hpassed⟩ := h
  exact ⟨_, reads_text hls, level_lexemes hpassed⟩

theorem passes_predicate (d : Dialect) (p : Predicate) : Passes d (p.sql d) :=
  ⟨_, p.reads d, level_predicate d p⟩

/-- A fixed text between pieces that are passed. -/
theorem Passes.between (hx : Passes d x) (hseparator : isBetween separator = true)
    (hleads : leads separator 0 0 = true) :
    ∃ items, ReadsThrough d (x ++ text separator) items ∧ Level d items := by
  simp only [isBetween, Bool.and_eq_true] at hseparator
  obtain ⟨items, hitems, hlevel⟩ := hx
  obtain ⟨ls, hls, hpassed⟩ := passesThrough_fixed d separator 0 0 hseparator.2 hleads
  exact ⟨_, hitems.appendText hseparator.1 hls, hlevel.append (level_lexemes hpassed)⟩

/-- Pieces behind others that are passed. -/
theorem reads_join_last (hseparator : isBetween separator = true)
    (hleads : leads separator 0 0 = true) (hxs : ∀ x ∈ xs, Passes d x) {items : List Item}
    (hlast : Reads d last items) :
    ∃ before, Reads d (join separator (xs ++ [last])) (before ++ items) ∧ Level d before := by
  induction xs with
  | nil => exact ⟨[], hlast, fun _ => rfl⟩
  | cons x rest ih =>
    obtain ⟨others, hothers, hrest⟩ := ih fun y hy => hxs y (List.mem_cons_of_mem _ hy)
    obtain ⟨before, hbefore, hlevel⟩ :=
      (hxs x (List.mem_cons_self ..)).between hseparator hleads
    have hjoin : join separator (x :: rest ++ [last]) =
        x ++ text separator ++ join separator (rest ++ [last]) := by
      cases rest <;> rfl
    refine ⟨before ++ others, ?_, hlevel.append hrest⟩
    rw [hjoin, List.append_assoc before]
    exact hbefore.append hothers

theorem passes_join (hseparator : isBetween separator = true)
    (hleads : leads separator 0 0 = true) (hxs : ∀ x ∈ xs, Passes d x) :
    Passes d (join separator xs) := by
  rcases List.eq_nil_or_concat xs with rfl | ⟨front, last, rfl⟩
  · exact ⟨[], (reads_nil d).reads, fun _ => rfl⟩
  · rw [List.concat_eq_append] at hxs ⊢
    obtain ⟨items, hitems, hlevel⟩ := hxs last (by simp)
    obtain ⟨before, hreads, hbefore⟩ := reads_join_last hseparator hleads
      (fun x hx => hxs x (List.mem_append_left _ hx)) hitems
    exact ⟨_, hreads, hbefore.append hlevel⟩

end Sql

end EntityStore
