import EntityStore.Proofs.Json.Depth
import EntityStore.Proofs.Stored.Embedded
import EntityStore.Proofs.Stored.RawText
import EntityStore.Statement

/-!
Elements of lists that are stored and read back. An element is bound without regard to the type of
the list and read by it. So a list of objects reads a text that is a document as the value of the
document; every other list gives its elements back, but for integers that are bound as doubles.
-/
namespace EntityStore

namespace Json

section Texts

/-- How many characters of a text do not stand for themselves in a string of a document. -/
def marks (cs : List Char) : Nat :=
  cs.countP fun c => !isPlain c

theorem marks_cons (c : Char) (cs : List Char) :
    marks (c :: cs) = marks cs + if isPlain c then 0 else 1 := by
  cases hc : isPlain c <;> simp [marks, hc]

theorem marks_append (cs ds : List Char) : marks (cs ++ ds) = marks cs + marks ds :=
  List.countP_append

/-- What an escape stands for has no more marks than the escape. -/
theorem StringBody.marks_lt {cs x rest : List Char} (h : StringBody cs x rest) :
    marks x + marks rest < marks cs := by
  have hquote : isPlain '"' = false := by decide
  have hslash : isPlain '\\' = false := by decide
  induction h with
  | close rest => simp [marks, hquote]
  | plain hc _ ih =>
    simp only [marks_cons, hc, if_true]
    omega
  | letter | number | pair =>
    simp only [marks_cons, hslash, Bool.false_eq_true, if_false]
    split <;> omega

theorem marks_escapeControl (c : Char) : marks (escapeControl c) ≤ marks [c] := by
  by_cases hc : c.toNat < 0x20
  · have hall : ∀ n < 0x20, marks (escapeControl (Char.ofNat n)) ≤ marks [Char.ofNat n] := by
      decide
    simpa using hall c.toNat hc
  · rw [escapeControl_of_not hc]

theorem marks_escapeControls (s : String) : marks (escapeControls s).toList ≤ marks s.toList := by
  rw [toList_escapeControls]
  induction s.toList with
  | nil => exact Nat.le_refl _
  | cons c rest ih =>
    have hc := marks_escapeControl c
    rw [List.flatMap_cons, marks_append, ← List.singleton_append, marks_append]
    omega

/-- A document has the quotes of a string besides the characters of the string. -/
theorem parse?_ne_str {s t : String} (h : marks t.toList ≤ marks s.toList) :
    parse? t ≠ some (.str s) := by
  intro hread
  obtain ⟨ts, w, htokens, hwhole, hrun, hw⟩ := parse?_eq_some hread
  obtain rfl := eq_str_of_canonical hw
  obtain rfl := eq_str_of_run hrun
  obtain ⟨blanks, body, rest, htext, -, hbody⟩ :=
    (lexed_of_tokensWithin? htokens hwhole).exists_body
  have hlt := hbody.marks_lt
  rw [htext, marks_append, marks_cons] at h
  omega

/-- A stored text stays a text exactly where it is no document, as it stands or escaped. -/
theorem ofStoredText_eq_str_iff (s : String) :
    ofStoredText s = .str s ↔ parse? s = none ∧ parse? (escapeControls s) = none := by
  unfold ofStoredText
  cases hraw : parse? s with
  | some v =>
    refine iff_of_false (fun heq => ?_) (fun h => by cases h.1)
    exact parse?_ne_str (Nat.le_refl _) (hraw.trans (congrArg some heq))
  | none =>
    cases hescaped : parse? (escapeControls s) with
    | some v =>
      refine iff_of_false (fun heq => ?_) (fun h => by cases h.2)
      exact parse?_ne_str (marks_escapeControls s) (hescaped.trans (congrArg some heq))
    | none => exact iff_of_true rfl ⟨rfl, rfl⟩

/-- A container of integers is what its text is read as, unless too many are open in it. -/
theorem IsWhole.ofStoredText_text_iff {v : Json} (hv : v.IsWhole) (hstr : ∀ s, v ≠ .str s) :
    ofStoredText v.text = v ↔ v.depth ≤ maxDepth := by
  constructor
  · intro hread
    unfold ofStoredText at hread
    cases hraw : parse? v.text with
    | some w =>
      rw [hraw] at hread
      exact hread ▸ depth_le_of_parse? hraw
    | none =>
      rw [hraw] at hread
      cases hescaped : parse? (escapeControls v.text) with
      | some w =>
        rw [hescaped] at hread
        exact hread ▸ depth_le_of_parse? hescaped
      | none =>
        rw [hescaped] at hread
        exact absurd hread.symm (hstr _)
  · intro hdepth
    rw [ofStoredText, hv.parse?_text hdepth]

end Texts

end Json

/-- Integers beyond 64 signed bits are bound as doubles. -/
theorem Parameter.ofJson_int (n : Int) : ofJson (.num (.int n)) =
    if n < 0x8000000000000000 then .int n else .float (Number.toFloat (.int n)) := by
  rw [ofJson, ofNumber, Number.int64?]
  by_cases hn : n < 0x8000000000000000 <;> simp only [hn, if_true, if_false]

/-- The value that an engine gives back for a bound one. Engines that have no truth values of their
own hold them as numbers. -/
def Parameter.returned (native : Bool) : Parameter → Json
  | null => .null
  | bool b => if native then .bool b else .ofInt b.toInt
  | int n => .ofInt n
  | float x => .num (.float x)
  | text s => .str s
  | bytes b => Server.bytesToJson b.toList

namespace FieldType

/-- Whether a value is one of the type. Any value but null is an object here. -/
def Holds (t : FieldType) : Json → Prop
  | .null => False
  | .bool _ => t = .boolean ∨ t = .object
  | .num (.int _) => t.isIntegral = true ∨ t.isDecimal = true ∨ t = .object
  | .num (.float _) => t.isDecimal = true ∨ t = .object
  | .str _ => t.isStringLike = true ∨ t = .text ∨ t = .object
  | .arr _ | .obj _ => t = .object

def Keeps (t : FieldType) (native : Bool) : Json → Prop
  | .bool _ => t = .object → native = true
  | .num (.int n) => n < 0x8000000000000000
  | .str s => t = .object → Json.parse? s = none ∧ Json.parse? (Json.escapeControls s) = none
  | .arr items => Json.ofStoredText (Json.arr items).text = .arr items
  | .obj members => Json.ofStoredText (Json.obj members).text = .obj members
  | .null | .num (.float _) => True

def readElement (t : FieldType) (native : Bool) (v : Json) : Json :=
  t.coerce ((Parameter.ofJson v).returned native)

variable {t : FieldType} {native : Bool} {v : Json}

theorem readElement_bool (h : t = .boolean ∨ t = .object) (b : Bool) :
    t.readElement native (.bool b) = .bool b ↔ (t = .object → native = true) := by
  rcases h with rfl | rfl
  · refine iff_of_true ?_ nofun
    cases native <;> cases b <;> rfl
  · cases native with
    | true => exact iff_of_true rfl fun _ => rfl
    | false => exact iff_of_false nofun fun h => absurd (h rfl) Bool.false_ne_true

theorem readElement_int (ht : t ≠ .boolean) (n : Int) :
    t.readElement native (.num (.int n)) = .num (.int n) ↔ n < 0x8000000000000000 := by
  rw [readElement, Parameter.ofJson_int]
  by_cases hn : n < 0x8000000000000000
  · rw [if_pos hn]
    exact iff_of_true (coerce_num ht _) hn
  · rw [if_neg hn]
    refine iff_of_false (fun heq => ?_) hn
    cases (coerce_num ht _).symm.trans heq

theorem readElement_str (h : t.isStringLike = true ∨ t = .text ∨ t = .object) (s : String) :
    t.readElement native (.str s) = .str s ↔
      (t = .object → Json.parse? s = none ∧ Json.parse? (Json.escapeControls s) = none) := by
  rcases h with hstring | rfl | rfl
  · have ht : t ≠ .object := by
      rintro rfl
      cases hstring
    exact iff_of_true (coerce_str_of_isStringLike hstring s) fun h => absurd h ht
  · exact iff_of_true rfl nofun
  · exact (Json.ofStoredText_eq_str_iff s).trans ⟨fun h _ => h, fun h => h rfl⟩

/-- An element that is a value of the type is read back exactly under the conditions of `Keeps`. -/
theorem readElement_eq_iff (h : t.Holds v) : t.readElement native v = v ↔ t.Keeps native v := by
  cases v with
  | null => cases h
  | bool b => exact readElement_bool h b
  | num n =>
    have ht : t ≠ .boolean := by
      rintro rfl
      cases n <;> simp [Holds, isIntegral, isDecimal] at h
    cases n with
    | int n => exact readElement_int ht n
    | float x => exact iff_of_true (coerce_num ht _) trivial
  | str s => exact readElement_str h s
  | arr | obj =>
    subst h
    exact Iff.rfl

/-- Lists of other types keep all their elements but integers beyond 64 signed bits. -/
theorem keeps_iff_of_ne_object (h : t.Holds v) (ht : t ≠ .object) :
    t.Keeps native v ↔ ∀ n, v = .num (.int n) → n < 0x8000000000000000 := by
  cases v with
  | null => cases h
  | bool | str => exact iff_of_true (fun hobject => absurd hobject ht) nofun
  | num n =>
    cases n with
    | int n =>
      refine ⟨?_, fun hn => hn n rfl⟩
      rintro hn _ ⟨⟩
      exact hn
    | float => exact iff_of_true trivial nofun
  | arr | obj => exact absurd h ht

end FieldType

theorem Json.IsWhole.keeps_iff {v : Json} (hv : v.IsWhole) (hdepth : 0 < v.depth) {t : FieldType}
    {native : Bool} : t.Keeps native v ↔ v.depth ≤ Json.maxDepth := by
  cases v with
  | arr | obj => exact hv.ofStoredText_text_iff nofun
  | _ => exact absurd hdepth (Nat.lt_irrefl 0)

end EntityStore
