import EntityStore.Statement
import Mathlib.Tactic.Common

/-!
SQL text as an engine takes it apart. Quoted identifiers and text literals are read whole, a doubled
mark being the only escape inside them; a point, a comma, a parenthesis and a question mark stand
alone; everything else between blanks is a word. Identifiers and literals written by a dialect read
back as themselves, and texts that meet at a blank or at a sign read as their parts do.
-/
namespace EntityStore.Reading

inductive Lexeme where
  /-- An identifier without its marks. -/
  | name (s : String)
  | literal (s : String)
  | word (s : String)
  | sign (c : Char)
  /-- A quotation that the text ends in. -/
  | unclosed
deriving DecidableEq, Repr

def isSign (c : Char) : Bool :=
  c == '(' || c == ')' || c == ',' || c == '.' || c == '?'

def isCut (c : Char) : Bool :=
  c == ' ' || c == '\n' || isSign c

def markOf (d : Dialect) (literal : Bool) : Char :=
  if literal then '\x27' else d.mark

inductive ScanState where
  | between
  | word (read : List Char)
  | quoted (literal : Bool) (read : List Char)
  /-- Behind a mark that closes the quotation unless it is doubled. -/
  | closing (literal : Bool) (read : List Char)
deriving DecidableEq, Repr

def quotation (literal : Bool) (read : List Char) : Lexeme :=
  if literal then .literal (String.ofList read) else .name (String.ofList read)

namespace ScanState

def finish : ScanState → List Lexeme
  | between => []
  | word read => [.word (String.ofList read)]
  | quoted _ _ => [.unclosed]
  | closing literal read => [quotation literal read]

def isOpen : ScanState → Bool
  | quoted _ _ => true
  | _ => false

end ScanState

def begin (d : Dialect) (c : Char) : List Lexeme × ScanState :=
  if c = markOf d false then ([], .quoted false [])
  else if c = markOf d true then ([], .quoted true [])
  else if isSign c then ([.sign c], .between)
  else if isCut c then ([], .between)
  else ([], .word [c])

def isWordChar (d : Dialect) (c : Char) : Bool :=
  !isCut c && c != markOf d false && c != markOf d true

def step (d : Dialect) (c : Char) : ScanState → List Lexeme × ScanState
  | .between => begin d c
  | .word read =>
    if isWordChar d c then ([], .word (read ++ [c]))
    else (.word (String.ofList read) :: (begin d c).1, (begin d c).2)
  | .quoted literal read =>
    if c = markOf d literal then ([], .closing literal read)
    else ([], .quoted literal (read ++ [c]))
  | .closing literal read =>
    if c = markOf d literal then ([], .quoted literal (read ++ [c]))
    else (quotation literal read :: (begin d c).1, (begin d c).2)

def feed (d : Dialect) (m : ScanState) : List Char → List Lexeme × ScanState
  | [] => ([], m)
  | c :: rest => ((step d c m).1 ++ (feed d (step d c m).2 rest).1, (feed d (step d c m).2 rest).2)

def scan (d : Dialect) (m : ScanState) (cs : List Char) : List Lexeme :=
  (feed d m cs).1 ++ (feed d m cs).2.finish

def lexemes (d : Dialect) (s : String) : List Lexeme :=
  scan d .between s.toList

def cuts : List Char → Bool
  | [] => true
  | c :: _ => isCut c

def startsCut : List Char → Bool
  | [] => false
  | c :: _ => isCut c

section Cuts

@[simp] theorem cuts_nil : cuts [] = true := rfl

theorem cuts_append {a b : List Char} (ha : cuts a = true) (hb : cuts b = true) :
    cuts (a ++ b) = true := by
  cases a with
  | nil => exact hb
  | cons c rest => exact ha

theorem cuts_of_startsCut {a : List Char} (h : startsCut a = true) (b : List Char) :
    cuts (a ++ b) = true := by
  cases a with
  | nil => simp [startsCut] at h
  | cons c rest => exact h

/-- A text cuts when the text that it begins with does. -/
theorem cuts_text {a : String} (b : String) (h : startsCut a.toList = true) :
    cuts (a ++ b).toList = true := by
  rw [String.toList_append]
  exact cuts_of_startsCut h b.toList

theorem isCut_markOf (d : Dialect) (literal : Bool) : isCut (markOf d literal) = false := by
  cases d <;> cases literal <;> rfl

theorem ne_markOf_of_isCut (d : Dialect) (literal : Bool) {c : Char} (h : isCut c = true) :
    c ≠ markOf d literal := by
  rintro rfl
  simp [isCut_markOf] at h

theorem isWordChar_of_isCut (d : Dialect) {c : Char} (h : isCut c = true) :
    isWordChar d c = false := by
  simp [isWordChar, h]

end Cuts

section Scan

variable {d : Dialect}

theorem feed_append (m : ScanState) (a b : List Char) :
    feed d m (a ++ b) =
      ((feed d m a).1 ++ (feed d (feed d m a).2 b).1, (feed d (feed d m a).2 b).2) := by
  induction a generalizing m with
  | nil => simp [feed]
  | cons c rest ih => simp [feed, ih]

theorem scan_append (m : ScanState) (a b : List Char) :
    scan d m (a ++ b) = (feed d m a).1 ++ scan d (feed d m a).2 b := by
  simp [scan, feed_append]

/-- A text whose reading is known is read apart from what follows. -/
theorem scan_append_of_feed {m m' : ScanState} {a : List Char} {ls : List Lexeme}
    (h : feed d m a = (ls, m')) (b : List Char) : scan d m (a ++ b) = ls ++ scan d m' b := by
  rw [scan_append, h]

/-- Behind a cut nothing depends on the lexeme before it. -/
theorem scan_of_cuts {m : ScanState} (hm : m.isOpen = false) {cs : List Char}
    (h : cuts cs = true) : scan d m cs = m.finish ++ scan d .between cs := by
  cases cs with
  | nil => simp [scan, feed, ScanState.finish]
  | cons c rest =>
    have hc : isCut c = true := h
    cases m with
    | between => simp [ScanState.finish]
    | word read => simp [scan, feed, step, ScanState.finish, isWordChar_of_isCut d hc]
    | quoted literal read => simp [ScanState.isOpen] at hm
    | closing literal read =>
      have hne := ne_markOf_of_isCut d literal hc
      simp [scan, feed, step, ScanState.finish, hne]

theorem begin_wordChar {c : Char} (h : isWordChar d c = true) : begin d c = ([], .word [c]) := by
  simp only [isWordChar, Bool.and_eq_true, Bool.not_eq_true', bne_iff_ne, ne_eq] at h
  obtain ⟨⟨hcut, hname⟩, hliteral⟩ := h
  have hsign : isSign c = false := by
    by_contra hs
    simp [isCut, hs] at hcut
  simp [begin, hname, hliteral, hsign, hcut]

theorem feed_word (read w : List Char) (hw : ∀ c ∈ w, isWordChar d c = true) :
    feed d (.word read) w = ([], .word (read ++ w)) := by
  induction w generalizing read with
  | nil => simp [feed]
  | cons c rest ih =>
    have hc : isWordChar d c = true := hw c (List.mem_cons_self ..)
    have hrest := ih (read ++ [c]) fun x hx => hw x (List.mem_cons_of_mem _ hx)
    simp [feed, step, hc, hrest]

/-- Doubled marks inside a quotation stand for single ones. -/
theorem feed_double (literal : Bool) (read cs : List Char) :
    feed d (.quoted literal read) (Text.double (markOf d literal) cs) =
      ([], .quoted literal (read ++ cs)) := by
  induction cs generalizing read with
  | nil => simp [Text.double, feed]
  | cons c rest ih =>
    by_cases hc : c = markOf d literal
    · subst hc
      simp [Text.double, feed, step, ih]
    · simp [Text.double, feed, step, hc, ih]

theorem begin_mark (literal : Bool) : begin d (markOf d literal) = ([], .quoted literal []) := by
  cases d <;> cases literal <;> rfl

theorem feed_enclose (literal : Bool) (s : String) :
    feed d .between (Text.enclose (markOf d literal) s).toList =
      ([], .closing literal s.toList) := by
  have hbody := feed_double (d := d) literal [] s.toList
  simp only [Text.enclose, String.toList_ofList, feed, step, begin_mark, feed_append, hbody]
  simp

end Scan

/-- The text reads as these lexemes where a cut follows it. -/
def Reads (d : Dialect) (s : String) (ls : List Lexeme) : Prop :=
  ∀ rest, cuts rest = true → scan d .between (s.toList ++ rest) = ls ++ scan d .between rest

/-- The text reads as these lexemes whatever follows it. -/
def ReadsThrough (d : Dialect) (s : String) (ls : List Lexeme) : Prop :=
  ∀ rest, scan d .between (s.toList ++ rest) = ls ++ scan d .between rest

section Reads

variable {d : Dialect} {s t : String} {ls ms : List Lexeme}

theorem ReadsThrough.reads (h : ReadsThrough d s ls) : Reads d s ls :=
  fun rest _ => h rest

theorem readsThrough_of_feed (h : feed d .between s.toList = (ls, .between)) :
    ReadsThrough d s ls :=
  scan_append_of_feed h

theorem reads_of_feed {m : ScanState} (h : feed d .between s.toList = (ls, m))
    (hm : m.isOpen = false) : Reads d s (ls ++ m.finish) := by
  intro rest hcut
  rw [scan_append_of_feed h, scan_of_cuts hm hcut, List.append_assoc]

theorem ReadsThrough.append (hs : ReadsThrough d s ls) (ht : Reads d t ms) :
    Reads d (s ++ t) (ls ++ ms) := by
  intro rest hcut
  rw [String.toList_append, List.append_assoc, hs, ht rest hcut, List.append_assoc]

/-- A text that begins with a cut may follow any other. -/
theorem Reads.appendThrough (hs : Reads d s ls) (hcut : startsCut t.toList = true)
    (ht : ReadsThrough d t ms) : ReadsThrough d (s ++ t) (ls ++ ms) := by
  intro rest
  rw [String.toList_append, List.append_assoc, hs _ (cuts_of_startsCut hcut rest), ht rest,
    List.append_assoc]

theorem Reads.append (hs : Reads d s ls) (hcut : cuts t.toList = true) (ht : Reads d t ms) :
    Reads d (s ++ t) (ls ++ ms) := by
  intro rest hrest
  rw [String.toList_append, List.append_assoc, hs _ (cuts_append hcut hrest), ht rest hrest,
    List.append_assoc]

theorem Reads.lexemes_eq (h : Reads d s ls) : lexemes d s = ls := by
  have hscan := h [] rfl
  simpa [lexemes, scan, feed, ScanState.finish] using hscan

/-- A run of other characters is one word. -/
theorem reads_word (hne : s.toList ≠ []) (hw : ∀ c ∈ s.toList, isWordChar d c = true) :
    Reads d s [.word s] := by
  have hfeed : feed d .between s.toList = ([], .word s.toList) := by
    cases hs : s.toList with
    | nil => exact absurd hs hne
    | cons c tail =>
      rw [hs] at hw
      have hc : isWordChar d c = true := hw c (List.mem_cons_self ..)
      have htail := feed_word [c] tail fun x hx => hw x (List.mem_cons_of_mem _ hx)
      simp [feed, step, begin_wordChar hc, htail]
  simpa [ScanState.finish] using reads_of_feed hfeed rfl

/-- An enclosed text is one lexeme, the text itself. -/
theorem reads_enclose (d : Dialect) (literal : Bool) (s : String) :
    Reads d (Text.enclose (markOf d literal) s) [quotation literal s.toList] := by
  simpa [ScanState.finish] using reads_of_feed (feed_enclose literal s) rfl

theorem reads_quote (d : Dialect) (s : String) : Reads d (d.quote s) [.name s] := by
  simpa [markOf, quotation, Dialect.quote] using reads_enclose d false s

theorem reads_literal (d : Dialect) (s : String) : Reads d (Dialect.literal s) [.literal s] := by
  simpa [markOf, quotation, Dialect.literal] using reads_enclose d true s

/-- A column of a table reads as two names with a point between them. -/
theorem reads_qualified (d : Dialect) (source column : String) :
    Reads d (d.qualified source column) [.name source, .sign '.', .name column] := by
  have hpoint : ReadsThrough d "." [.sign '.'] :=
    readsThrough_of_feed (by cases d <;> decide)
  exact ((reads_quote d source).appendThrough (by decide) hpoint).append (reads_quote d column)

end Reads

end EntityStore.Reading
