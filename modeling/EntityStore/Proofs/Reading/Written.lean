import EntityStore.Proofs.Reading.Placeholder

/-!
Pieces read as items: lexemes, and values where the pieces have them. The written text reads as the
items with a placeholder for each value, numbered behind the values bound before. Pieces are put
together like texts, at blanks and signs.
-/
namespace EntityStore

namespace Reading

inductive Item where
  | lexeme (l : Lexeme)
  | value (p : Parameter)

def values : List Item → List Parameter
  | [] => []
  | .lexeme _ :: rest => values rest
  | .value p :: rest => p :: values rest

def numbered (d : Dialect) (before : Nat) : List Item → List Lexeme
  | [] => []
  | .lexeme l :: rest => l :: numbered d before rest
  | .value p :: rest => placeholder d (before + 1) p :: numbered d (before + 1) rest

def joinItems (separator : List Lexeme) : List (List Item) → List Item
  | [] => []
  | [s] => s
  | s :: t :: rest => s ++ separator.map .lexeme ++ joinItems separator (t :: rest)

section Items

/-- What two parts hand on to the items with the separator between them holds of all parts
joined. -/
theorem joinItems_of_forall {motive : List Item → Prop} {separator : List Lexeme}
    (hnil : motive [])
    (hboth : ∀ s t, motive s → motive t → motive (s ++ separator.map .lexeme ++ t))
    {parts : List (List Item)} (h : ∀ part ∈ parts, motive part) :
    motive (joinItems separator parts) := by
  induction parts with
  | nil => exact hnil
  | cons part rest ih =>
    obtain ⟨hpart, hrest⟩ := List.forall_mem_cons.mp h
    cases rest with
    | nil => exact hpart
    | cons next tail => exact hboth _ _ hpart (ih hrest)

@[simp] theorem values_append (a b : List Item) : values (a ++ b) = values a ++ values b := by
  induction a with
  | nil => rfl
  | cons item rest ih => cases item <;> simp [values, ih]

@[simp] theorem values_lexemes (ls : List Lexeme) : values (ls.map .lexeme) = [] := by
  induction ls with
  | nil => rfl
  | cons l rest ih => simpa [values] using ih

theorem values_joinItems (separator : List Lexeme) (parts : List (List Item)) :
    values (joinItems separator parts) = parts.flatMap values := by
  induction parts with
  | nil => rfl
  | cons part rest ih =>
    cases rest with
    | nil => simp [joinItems]
    | cons next tail => simp [joinItems, ih]

theorem numbered_append (d : Dialect) (before : Nat) (a b : List Item) :
    numbered d before (a ++ b) =
      numbered d before a ++ numbered d (before + (values a).length) b := by
  induction a generalizing before with
  | nil => simp [numbered, values]
  | cons item rest ih =>
    cases item with
    | lexeme l => simp [numbered, values, ih]
    | value p =>
      have harith : before + 1 + (values rest).length = before + ((values rest).length + 1) := by
        omega
      simp [numbered, values, ih, harith]

@[simp] theorem numbered_lexemes (d : Dialect) (before : Nat) (ls : List Lexeme) :
    numbered d before (ls.map .lexeme) = ls := by
  induction ls with
  | nil => rfl
  | cons l rest ih => simp [numbered, ih]

end Items

/-- Whether no lexeme among the items is taken for a placeholder, and no value is null. -/
def Plain (d : Dialect) (items : List Item) : Prop :=
  (∀ l, .lexeme l ∈ items → isPlaceholder d l = false) ∧ .null ∉ values items

section Plain

variable {d : Dialect} {items others : List Item}

theorem plain_lexemes {ls : List Lexeme} (h : ∀ l ∈ ls, isPlaceholder d l = false) :
    Plain d (ls.map .lexeme) := by
  constructor
  · intro l hl
    obtain ⟨other, hother, heq⟩ := List.mem_map.mp hl
    cases heq
    exact h l hother
  · simp

theorem plain_lexeme {l : Lexeme} (h : isPlaceholder d l = false) : Plain d [.lexeme l] := by
  constructor
  · intro other hother
    simp only [List.mem_singleton, Item.lexeme.injEq] at hother
    exact hother ▸ h
  · simp [values]

theorem plain_value {p : Parameter} (hp : p ≠ .null) : Plain d [.value p] := by
  constructor
  · intro l hl
    simp at hl
  · intro hnull
    simp only [values, List.mem_singleton] at hnull
    exact hp hnull.symm

theorem Plain.append (hitems : Plain d items) (hothers : Plain d others) :
    Plain d (items ++ others) := by
  constructor
  · intro l hl
    rcases List.mem_append.mp hl with hleft | hright
    · exact hitems.1 l hleft
    · exact hothers.1 l hright
  · intro hnull
    rw [values_append] at hnull
    rcases List.mem_append.mp hnull with hleft | hright
    · exact hitems.2 hleft
    · exact hothers.2 hright

theorem plain_joinItems {separator : List Lexeme}
    (hseparator : ∀ l ∈ separator, isPlaceholder d l = false) {parts : List (List Item)}
    (h : ∀ part ∈ parts, Plain d part) : Plain d (joinItems separator parts) := by
  refine joinItems_of_forall ⟨by simp, by simp [values]⟩ (fun _ _ hs ht => ?_) h
  exact (hs.append (plain_lexemes hseparator)).append ht

end Plain

end Reading

namespace Sql

open Reading

structure Reads (d : Dialect) (x : Sql) (items : List Item) : Prop where
  bound_eq : bound x = values items
  scan_eq : ∀ (b : Bindings) (rest : List Char), b.dialect = d → cuts rest = true →
    scan d .between ((write b x).1.toList ++ rest) =
      numbered d b.params.length items ++ scan d .between rest

structure ReadsThrough (d : Dialect) (x : Sql) (items : List Item) : Prop where
  bound_eq : bound x = values items
  scan_eq : ∀ (b : Bindings) (rest : List Char), b.dialect = d →
    scan d .between ((write b x).1.toList ++ rest) =
      numbered d b.params.length items ++ scan d .between rest

variable {d : Dialect} {x y : Sql} {items others : List Item}

theorem ReadsThrough.reads (h : ReadsThrough d x items) : Reads d x items where
  bound_eq := h.bound_eq
  scan_eq b rest hb _ := h.scan_eq b rest hb

theorem reads_nil (d : Dialect) : ReadsThrough d [] [] where
  bound_eq := rfl
  scan_eq b rest _ := by simp [numbered]

theorem reads_text {s : String} {ls : List Lexeme} (h : Reading.Reads d s ls) :
    Reads d (text s) (ls.map .lexeme) where
  bound_eq := by simp
  scan_eq b rest _ hcut := by
    rw [write_text, numbered_lexemes]
    exact h rest hcut

theorem readsThrough_text {s : String} {ls : List Lexeme} (h : Reading.ReadsThrough d s ls) :
    ReadsThrough d (text s) (ls.map .lexeme) where
  bound_eq := by simp
  scan_eq b rest _ := by
    rw [write_text, numbered_lexemes]
    exact h rest

theorem reads_value (d : Dialect) {p : Parameter} (hp : p ≠ .null) :
    Reads d (value p) [.value p] where
  bound_eq := by simp [values, Parameter.bound?_of_ne_null hp]
  scan_eq b rest hb hcut := by
    subst hb
    rw [write_value, Bindings.push_of_ne_null b hp]
    exact reads_placeholder b.dialect (b.params.length + 1) hp rest hcut

theorem reads_value_null (d : Dialect) : Reads d (value .null) [.lexeme (.word "NULL")] where
  bound_eq := rfl
  scan_eq b rest _ hcut := by
    rw [write_value, Bindings.push_null]
    exact reads_null d rest hcut

theorem ReadsThrough.append (hx : ReadsThrough d x items) (hy : Reads d y others) :
    Reads d (x ++ y) (items ++ others) where
  bound_eq := by simp [hx.bound_eq, hy.bound_eq]
  scan_eq b rest hb hcut := by
    have hrest := hy.scan_eq (b.extend (bound x)) rest hb hcut
    rw [write_append, write_bindings, String.toList_append, List.append_assoc, hx.scan_eq b _ hb,
      hrest, numbered_append, hx.bound_eq]
    simp

/-- A text that begins with a cut may follow any pieces. -/
theorem Reads.appendText {s : String} {ls : List Lexeme} (hx : Reads d x items)
    (hcut : startsCut s.toList = true) (hs : Reading.ReadsThrough d s ls) :
    ReadsThrough d (x ++ text s) (items ++ ls.map .lexeme) where
  bound_eq := by simp [hx.bound_eq]
  scan_eq b rest hb := by
    rw [write_append, write_text, String.toList_append, List.append_assoc,
      hx.scan_eq b _ hb (cuts_of_startsCut hcut rest), hs rest, numbered_append, numbered_lexemes,
      List.append_assoc]

/-- A text that begins with a cut, or is empty, may end the pieces. -/
theorem Reads.appendLast {s : String} {ls : List Lexeme} (hx : Reads d x items)
    (hcut : cuts s.toList = true) (hs : Reading.Reads d s ls) :
    Reads d (x ++ text s) (items ++ ls.map .lexeme) where
  bound_eq := by simp [hx.bound_eq]
  scan_eq b rest hb hrest := by
    rw [write_append, write_text, String.toList_append, List.append_assoc,
      hx.scan_eq b _ hb (cuts_append hcut hrest), hs rest hrest, numbered_append,
      numbered_lexemes, List.append_assoc]

/-- Pieces with the same separator between neighbours, which begins and ends with a cut. -/
theorem reads_join {separator : String} {ls : List Lexeme}
    (hcut : startsCut separator.toList = true) (hs : Reading.ReadsThrough d separator ls)
    {xs : List Sql} {parts : List (List Item)} (h : List.Forall₂ (Reads d) xs parts) :
    Reads d (join separator xs) (joinItems ls parts) := by
  induction h with
  | nil => exact (reads_nil d).reads
  | @cons x part xs parts hx hrest ih =>
    cases hrest with
    | nil => exact hx
    | cons hy htail => exact (hx.appendText hcut hs).append ih

/-- The lexemes of what is written are those of the pieces. -/
theorem Reads.lexemes_write (h : Reads d x items) (b : Bindings) (hb : b.dialect = d) :
    lexemes d (write b x).1 = numbered d b.params.length items := by
  have hscan := h.scan_eq b [] hb rfl
  simpa [lexemes, scan, feed, ScanState.finish] using hscan

end Sql

end EntityStore
