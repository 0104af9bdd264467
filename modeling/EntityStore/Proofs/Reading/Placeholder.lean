import EntityStore.Proofs.Reading.Lexeme
import EntityStore.Proofs.Text.Numeral

/-!
What pieces leave when they are written: the values that are bound, and the placeholders that stand
for them. A placeholder that ends at a cut is one lexeme, and its number is that of its value.
-/
namespace EntityStore

namespace Parameter

/-- The value as it is bound, which null never is. -/
def bound? : Parameter → Option Parameter
  | null => none
  | p => some p

theorem bound?_of_ne_null {p : Parameter} (h : p ≠ .null) : p.bound? = some p := by
  cases p <;> simp_all [bound?]

theorem castType?_of_ne_null {p : Parameter} (h : p ≠ .null) : ∃ type, p.castType? = some type := by
  cases p <;> simp_all [castType?]

end Parameter

namespace Bindings

def extend (b : Bindings) (ps : List Parameter) : Bindings :=
  { b with params := b.params ++ ps }

@[simp] theorem extend_dialect (b : Bindings) (ps : List Parameter) :
    (b.extend ps).dialect = b.dialect := rfl

@[simp] theorem extend_params (b : Bindings) (ps : List Parameter) :
    (b.extend ps).params = b.params ++ ps := rfl

@[simp] theorem extend_nil (b : Bindings) : b.extend [] = b := by
  simp [extend]

@[simp] theorem extend_extend (b : Bindings) (ps qs : List Parameter) :
    (b.extend ps).extend qs = b.extend (ps ++ qs) := by
  simp [extend]

theorem push_null (b : Bindings) : b.push .null = ("NULL", b) := rfl

theorem push_of_ne_null (b : Bindings) {p : Parameter} (h : p ≠ .null) :
    b.push p = (b.dialect.placeholder (b.params.length + 1) p, b.extend [p]) := by
  cases p <;> first | exact absurd rfl h | rfl

end Bindings

namespace Sql

def bound : Sql → List Parameter
  | [] => []
  | .text _ :: rest => bound rest
  | .value p :: rest => p.bound?.toList ++ bound rest

@[simp] theorem bound_nil : bound [] = [] := rfl

@[simp] theorem bound_append (a b : Sql) : bound (a ++ b) = bound a ++ bound b := by
  induction a with
  | nil => rfl
  | cons piece rest ih => cases piece <;> simp [bound, ih]

@[simp] theorem bound_text (s : String) : bound (text s) = [] := rfl

@[simp] theorem bound_value (p : Parameter) : bound (value p) = p.bound?.toList := by
  simp [bound, value]

@[simp] theorem write_nil (b : Bindings) : write b [] = ("", b) := rfl

theorem write_text (b : Bindings) (s : String) : write b (text s) = (s, b) := by
  simp [write, text]

theorem write_value (b : Bindings) (p : Parameter) : write b (value p) = b.push p := by
  simp [write, value]

theorem write_append (b : Bindings) (x y : Sql) :
    write b (x ++ y) = ((write b x).1 ++ (write (write b x).2 y).1, (write (write b x).2 y).2) := by
  induction x generalizing b with
  | nil => simp
  | cons piece rest ih => cases piece <;> simp [write, ih, String.append_assoc]

/-- Writing binds the values that are not null, in order, behind those bound before. -/
theorem write_bindings (b : Bindings) (x : Sql) : (write b x).2 = b.extend (bound x) := by
  induction x generalizing b with
  | nil => simp
  | cons piece rest ih =>
    cases piece with
    | text s => simpa [write, bound] using ih b
    | value p =>
      by_cases hp : p = .null
      · subst hp
        simpa [write, bound, Parameter.bound?, Bindings.push_null] using ih b
      · simp [write, bound, Parameter.bound?_of_ne_null hp, Bindings.push_of_ne_null b hp, ih]

theorem statement_params (d : Dialect) (x : Sql) : (statement d x).params = bound x := by
  have h := write_bindings { dialect := d } x
  simp [statement, h]

end Sql

namespace Reading

def isPlaceholder (d : Dialect) : Lexeme → Bool
  | .sign c => d != .postgres && c == '?'
  | .word s => d == .postgres && s.toList.contains '$'
  | _ => false

def placeholder (d : Dialect) (index : Nat) (p : Parameter) : Lexeme :=
  match d with
  | .mysql | .sqlite => .sign '?'
  | .postgres => .word (d.placeholder index p)

theorem isWordChar_of_isAlphanum (d : Dialect) {c : Char} (h : c.isAlphanum = true) :
    isWordChar d c = true := by
  by_contra hn
  have hc : isCut c = true ∨ c = markOf d false ∨ c = markOf d true := by
    by_contra hno
    simp only [not_or] at hno
    simp [isWordChar, hno] at hn
  rcases hc with hcut | rfl | rfl
  · simp only [isCut, isSign, Bool.or_eq_true, beq_iff_eq, or_assoc] at hcut
    rcases hcut with rfl | rfl | rfl | rfl | rfl | rfl | rfl <;> revert h <;> decide
  · revert h
    cases d <;> decide
  · revert h
    cases d <;> decide

theorem reads_numeral (d : Dialect) (n : Nat) : Reads d (toString n) [.word (toString n)] :=
  reads_word (Text.toList_toString_ne_nil n) fun _ hc =>
    isWordChar_of_isAlphanum d (Text.isAlphanum_of_mem_toString hc)

private theorem isWordChar_castType {p : Parameter} {type : String} (h : p.castType? = some type) :
    ∀ c ∈ type.toList, isWordChar .postgres c = true := by
  apply List.all_eq_true.mp
  cases p <;> simp only [Parameter.castType?, Option.some.injEq, reduceCtorEq] at h <;>
    subst h <;> decide

/-- The characters of a numbered placeholder. -/
theorem placeholder_toList {p : Parameter} {type : String} (h : p.castType? = some type)
    (index : Nat) : (Dialect.placeholder index p .postgres).toList =
      '$' :: (Nat.toDigits 10 index ++ (':' :: ':' :: type.toList)) := by
  simp [Dialect.placeholder, h, String.toList_append]

theorem isPlaceholder_placeholder (d : Dialect) (index : Nat) {p : Parameter} (hp : p ≠ .null) :
    isPlaceholder d (placeholder d index p) = true := by
  cases d with
  | postgres =>
    obtain ⟨type, htype⟩ := Parameter.castType?_of_ne_null hp
    have hchars := placeholder_toList htype index
    simp [placeholder, isPlaceholder, hchars]
  | _ => rfl

/-- A placeholder is one lexeme. -/
theorem reads_placeholder (d : Dialect) (index : Nat) {p : Parameter} (hp : p ≠ .null) :
    Reads d (d.placeholder index p) [placeholder d index p] := by
  cases d with
  | postgres =>
    obtain ⟨type, htype⟩ := Parameter.castType?_of_ne_null hp
    have hchars := placeholder_toList htype index
    refine reads_word (by simp [hchars]) fun c hc => ?_
    rw [hchars] at hc
    simp only [List.mem_cons, List.mem_append] at hc
    rcases hc with rfl | hdigit | rfl | rfl | hcast
    · decide
    · have h := Nat.isDigit_of_mem_toDigits (by omega) (by omega) hdigit
      exact isWordChar_of_isAlphanum _ (by simp [Char.isAlphanum, h])
    · decide
    · decide
    · exact isWordChar_castType htype c hcast
  | mysql =>
    change Reads .mysql "?" [.sign '?']
    exact (readsThrough_of_feed (by decide)).reads
  | sqlite =>
    change Reads .sqlite "?" [.sign '?']
    exact (readsThrough_of_feed (by decide)).reads

/-- NULL is a word. -/
theorem reads_null (d : Dialect) : Reads d "NULL" [.word "NULL"] :=
  reads_word (by decide) (List.all_eq_true.mp (by cases d <;> decide))

end Reading

end EntityStore
