import EntityStore.Dialect
import Mathlib.Logic.Function.Basic

/-!
Quoted identifiers as an engine reads them. An identifier stands between two marks, and a doubled
mark inside is the only escape. What is read as an identifier is exactly what is written for it,
up to where its marks end; so two names are never written alike, and a column of a table reads as
its table, a point and the column whatever follows it but a mark.
-/
namespace EntityStore.Reading

def readMarked? (mark : Char) : List Char → Option (List Char × List Char)
  | [] => none
  | [c] => if c = mark then some ([], []) else none
  | c :: next :: rest =>
    if c ≠ mark then (readMarked? mark (next :: rest)).map fun r => (c :: r.1, r.2)
    else if next = mark then (readMarked? mark rest).map fun r => (mark :: r.1, r.2)
    else some ([], next :: rest)

def readIdentifier? (d : Dialect) : List Char → Option (String × List Char)
  | [] => none
  | c :: rest =>
    if c = d.mark then (readMarked? d.mark rest).map fun r => (String.ofList r.1, r.2) else none

def readQualified? (d : Dialect) (cs : List Char) : Option ((String × String) × List Char) := do
  match ← readIdentifier? d cs with
  | (source, '.' :: rest) =>
    let (column, rest) ← readIdentifier? d rest
    some ((source, column), rest)
  | _ => none

section Marked

variable {mark c : Char} {cs x rest : List Char}

/-- A mark that is not doubled closes. -/
theorem readMarked?_close (h : rest.head? ≠ some mark) :
    readMarked? mark (mark :: rest) = some ([], rest) := by
  cases rest with
  | nil => simp [readMarked?]
  | cons next rest =>
    have hnext : next ≠ mark := fun heq => h (congrArg some heq)
    simp [readMarked?, hnext]

theorem readMarked?_doubled (mark : Char) (cs : List Char) :
    readMarked? mark (mark :: mark :: cs) =
      (readMarked? mark cs).map fun r => (mark :: r.1, r.2) := by
  simp [readMarked?]

theorem readMarked?_plain (h : c ≠ mark) (cs : List Char) :
    readMarked? mark (c :: cs) = (readMarked? mark cs).map fun r => (c :: r.1, r.2) := by
  cases cs <;> simp [readMarked?, h]

/-- The induction is on the text: a run of marks in it is read two by two, and the closing mark
behind the run is left over for the end because what follows is no mark. -/
theorem readMarked?_double (h : rest.head? ≠ some mark) (cs : List Char) :
    readMarked? mark (Text.double mark cs ++ mark :: rest) = some (cs, rest) := by
  induction cs with
  | nil => exact readMarked?_close h
  | cons c tail ih =>
    rw [Text.double]
    split
    · next hmark =>
      subst hmark
      rw [List.cons_append, List.cons_append, readMarked?_doubled, ih]
      rfl
    · next hplain =>
      rw [List.cons_append, readMarked?_plain hplain, ih]
      rfl

/-- What is read was written with its marks doubled, up to a mark that is not. -/
theorem eq_double_of_readMarked? (h : readMarked? mark cs = some (x, rest)) :
    cs = Text.double mark x ++ mark :: rest ∧ rest.head? ≠ some mark := by
  fun_induction readMarked? mark cs generalizing x with
  | case1 => cases h
  | case2 =>
    cases h
    exact ⟨rfl, nofun⟩
  | case3 => cases h
  | case4 c next tail hplain ih =>
    obtain ⟨⟨y, after⟩, hread, heq⟩ := Option.map_eq_some_iff.mp h
    cases heq
    obtain ⟨htail, hend⟩ := ih hread
    rw [Text.double, if_neg hplain, htail]
    exact ⟨rfl, hend⟩
  | case5 c tail hmark ih =>
    obtain ⟨⟨y, after⟩, hread, heq⟩ := Option.map_eq_some_iff.mp h
    cases heq
    obtain ⟨htail, hend⟩ := ih hread
    rw [Text.double, if_pos rfl, htail, not_not.mp hmark]
    exact ⟨rfl, hend⟩
  | case6 c next tail hmark hnext =>
    cases h
    rw [not_not.mp hmark]
    exact ⟨rfl, fun heq => hnext (Option.some.inj heq)⟩

theorem readMarked?_eq_some_iff : readMarked? mark cs = some (x, rest) ↔
    cs = Text.double mark x ++ mark :: rest ∧ rest.head? ≠ some mark := by
  refine ⟨eq_double_of_readMarked?, ?_⟩
  rintro ⟨rfl, hend⟩
  exact readMarked?_double hend x

end Marked

section Identifiers

variable {d : Dialect} {cs rest : List Char} {s source column : String}

theorem toList_quote (d : Dialect) (s : String) :
    (d.quote s).toList = d.mark :: (Text.double d.mark s.toList ++ [d.mark]) :=
  String.toList_ofList

theorem readIdentifier?_eq_some_iff : readIdentifier? d cs = some (s, rest) ↔
    cs = (d.quote s).toList ++ rest ∧ rest.head? ≠ some d.mark := by
  rw [toList_quote]
  cases cs with
  | nil => simp [readIdentifier?]
  | cons c tail =>
    rw [readIdentifier?]
    split
    · next hmark =>
      subst hmark
      have hs : ∀ x : List Char, String.ofList x = s ↔ x = s.toList := fun x => by
        rw [← String.toList_inj, String.toList_ofList]
      simp only [Option.map_eq_some_iff, Prod.mk.injEq, Prod.exists, hs]
      simp [readMarked?_eq_some_iff]
    · next hother => simp [hother]

theorem readIdentifier?_quote (h : rest.head? ≠ some d.mark) (s : String) :
    readIdentifier? d ((d.quote s).toList ++ rest) = some (s, rest) :=
  readIdentifier?_eq_some_iff.mpr ⟨rfl, h⟩

/-- Nothing is left over. -/
theorem readIdentifier?_of_quote (d : Dialect) (s : String) :
    readIdentifier? d (d.quote s).toList = some (s, []) :=
  readIdentifier?_eq_some_iff.mpr ⟨(List.append_nil _).symm, nofun⟩

theorem head?_point (d : Dialect) (cs : List Char) : ('.' :: cs).head? ≠ some d.mark := by
  cases d <;> simp [Dialect.mark]

theorem toList_qualified (d : Dialect) (source column : String) :
    (d.qualified source column).toList =
      (d.quote source).toList ++ '.' :: (d.quote column).toList := by
  simp [Dialect.qualified]

theorem readQualified?_eq_some_iff : readQualified? d cs = some ((source, column), rest) ↔
    cs = (d.qualified source column).toList ++ rest ∧ rest.head? ≠ some d.mark := by
  rw [toList_qualified, List.append_assoc, List.cons_append]
  constructor
  · intro h
    obtain ⟨⟨first, behind⟩, hfirst, hbehind⟩ := Option.bind_eq_some_iff.mp h
    obtain ⟨rfl, -⟩ := readIdentifier?_eq_some_iff.mp hfirst
    split at hbehind
    · next name tail heq =>
      obtain ⟨rfl, rfl⟩ := Prod.mk.inj heq
      obtain ⟨⟨second, after⟩, hsecond, hpair⟩ := Option.bind_eq_some_iff.mp hbehind
      cases hpair
      obtain ⟨rfl, hend⟩ := readIdentifier?_eq_some_iff.mp hsecond
      exact ⟨rfl, hend⟩
    · cases hbehind
  · rintro ⟨rfl, hend⟩
    have hsource := readIdentifier?_quote (head?_point d ((d.quote column).toList ++ rest)) source
    have hcolumn := readIdentifier?_quote hend column
    simp [readQualified?, hsource, hcolumn]

theorem quote_injective (d : Dialect) : Function.Injective d.quote := by
  intro s t h
  have hread := readIdentifier?_of_quote d s
  rw [h, readIdentifier?_of_quote] at hread
  cases hread
  rfl

theorem qualified_injective (d : Dialect) : Function.Injective2 d.qualified := by
  intro source source' column column' h
  have hread : ∀ source column,
      readQualified? d (d.qualified source column).toList = some ((source, column), []) :=
    fun source column => readQualified?_eq_some_iff.mpr ⟨(List.append_nil _).symm, nofun⟩
  have hboth := hread source column
  rw [h, hread] at hboth
  cases hboth
  exact ⟨rfl, rfl⟩

end Identifiers

/-- In every dialect a quoted name is read whole as this one identifier, and nothing but the quoted
name is read as it; a qualified column is read as its two identifiers, and nothing else is. What
follows them may be anything that does not begin with a mark. So no two names are quoted alike, and
no two columns of tables are written alike. -/
theorem identifiers_read_iff (d : Dialect) :
    (∀ s, readIdentifier? d (d.quote s).toList = some (s, [])) ∧
    Function.Injective d.quote ∧
    (∀ cs s rest, readIdentifier? d cs = some (s, rest) ↔
      cs = (d.quote s).toList ++ rest ∧ rest.head? ≠ some d.mark) ∧
    (∀ cs source column rest, readQualified? d cs = some ((source, column), rest) ↔
      cs = (d.qualified source column).toList ++ rest ∧ rest.head? ≠ some d.mark) ∧
    Function.Injective2 d.qualified := by
  exact ⟨readIdentifier?_of_quote d, quote_injective d, fun _ _ _ => readIdentifier?_eq_some_iff,
    fun _ _ _ _ => readQualified?_eq_some_iff, qualified_injective d⟩

/-- A name that ends with a mark, in front of one that begins with one. -/
theorem identifiers_read_of_marks :
    Dialect.mysql.qualified "a\x60" "\x60\x60b" = "\x60a\x60\x60\x60.\x60\x60\x60\x60\x60b\x60" ∧
    readQualified? .mysql "\x60a\x60\x60\x60.\x60\x60\x60\x60\x60b\x60 = 1".toList =
      some (("a\x60", "\x60\x60b"), " = 1".toList) := by
  have hwritten : Dialect.mysql.qualified "a\x60" "\x60\x60b" =
      "\x60a\x60\x60\x60.\x60\x60\x60\x60\x60b\x60" := by decide
  refine ⟨hwritten, ?_⟩
  obtain ⟨-, -, -, hqualified, -⟩ := identifiers_read_iff .mysql
  rw [hqualified, hwritten]
  decide

end EntityStore.Reading
