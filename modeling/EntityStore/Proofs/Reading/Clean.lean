import EntityStore.Proofs.Reading.Token

/-!
Texts that can be read and have no placeholders, and pieces whose placeholders all stand for bound
values. Both are put together like texts, so that every statement written with quoted names, fixed
words and values is of this kind; its placeholders are then those of its values, in their order.
-/
namespace EntityStore

namespace Reading

/-- The text can be read where a cut follows, and has no placeholder. -/
def Clean (d : Dialect) (s : String) : Prop :=
  ∃ ls, Reads d s ls ∧ ∀ l ∈ ls, isPlaceholder d l = false

def CleanThrough (d : Dialect) (s : String) : Prop :=
  ∃ ls, ReadsThrough d s ls ∧ ∀ l ∈ ls, isPlaceholder d l = false

section Text

variable {d : Dialect} {s t : String} {ts : List Token}

theorem Tells.clean (h : Tells d s ts) : Clean d s := by
  obtain ⟨ls, hreads, hplain, -⟩ := h
  exact ⟨ls, hreads, hplain⟩

theorem Clean.tells (h : Clean d s) : ∃ ts, Tells d s ts := by
  obtain ⟨ls, hreads, hplain⟩ := h
  exact ⟨_, ls, hreads, hplain, rfl⟩

theorem TellsThrough.clean (h : TellsThrough d s ts) : CleanThrough d s := by
  obtain ⟨ls, hreads, hplain, -⟩ := h
  exact ⟨ls, hreads, hplain⟩

theorem CleanThrough.tells (h : CleanThrough d s) : ∃ ts, TellsThrough d s ts := by
  obtain ⟨ls, hreads, hplain⟩ := h
  exact ⟨_, ls, hreads, hplain, rfl⟩

theorem clean_of_isClean (d : Dialect) (s : String) (h : isClean s = true) : Clean d s :=
  (tells_of_isClean d s h).clean

theorem cleanThrough_of_isThrough (d : Dialect) (s : String) (h : isThrough s = true) :
    CleanThrough d s :=
  (tellsThrough_of_isThrough d s h).clean

theorem CleanThrough.clean (h : CleanThrough d s) : Clean d s := by
  obtain ⟨ts, hs⟩ := h.tells
  exact hs.tells.clean

theorem CleanThrough.append (hs : CleanThrough d s) (ht : Clean d t) : Clean d (s ++ t) := by
  obtain ⟨ts, hs⟩ := hs.tells
  obtain ⟨us, ht⟩ := ht.tells
  exact (hs.append ht).clean

/-- A text that begins with a cut, or is empty, may follow any other. -/
theorem Clean.append (hs : Clean d s) (ht : Clean d t) (hcut : cuts t.toList = true) :
    Clean d (s ++ t) := by
  obtain ⟨ts, hs⟩ := hs.tells
  obtain ⟨us, ht⟩ := ht.tells
  exact (hs.append ht hcut).clean

/-- A text that begins and ends with a cut may stand between any others. -/
theorem Clean.through (hs : Clean d s) (t : String) (ht : isBetween t = true) :
    CleanThrough d (s ++ t) := by
  simp only [isBetween, Bool.and_eq_true] at ht
  obtain ⟨ts, hs⟩ := hs.tells
  exact (hs.appendThrough ht.1 (tellsThrough_of_isThrough d t ht.2)).clean

theorem clean_empty (d : Dialect) : Clean d "" :=
  (tells_empty d).clean

theorem clean_quote (d : Dialect) (s : String) : Clean d (d.quote s) :=
  (tells_quote d s).clean

theorem clean_literal (d : Dialect) (s : String) : Clean d (Dialect.literal s) :=
  (tells_literal d s).clean

theorem clean_word (hne : s.toList ≠ [])
    (hs : ∀ c ∈ s.toList, c.isAlphanum = true ∨ c = '_') : Clean d s :=
  (tells_word hne hs).clean

theorem clean_toString (d : Dialect) (n : Nat) : Clean d (toString n) :=
  (tells_toString d n).clean

/-- What two texts hand on to the text with the separator between them holds of all texts joined. -/
theorem join_of_forall {motive : String → Prop} {separator : String} (hempty : motive "")
    (hboth : ∀ s t, motive s → motive t → motive (s ++ separator ++ t)) {texts : List String}
    (h : ∀ s ∈ texts, motive s) : motive (Text.join separator texts) := by
  induction texts with
  | nil => exact hempty
  | cons s rest ih =>
    obtain ⟨hs, hrest⟩ := List.forall_mem_cons.mp h
    cases rest with
    | nil => exact hs
    | cons t tail => exact hboth _ _ hs (ih hrest)

theorem clean_join {separator : String} {texts : List String}
    (hseparator : isBetween separator = true) (h : ∀ s ∈ texts, Clean d s) :
    Clean d (Text.join separator texts) :=
  join_of_forall (clean_empty d) (fun _ _ hs ht => (hs.through separator hseparator).append ht) h

end Text

end Reading

namespace Sql

open Reading

def Clean (d : Dialect) (x : Sql) : Prop :=
  ∃ items, Reads d x items ∧ Plain d items

variable {d : Dialect} {x : Sql}

theorem Tells.clean {ts : List Token} (h : Tells d x ts) : Clean d x := by
  obtain ⟨items, hreads, hplain, -⟩ := h
  exact ⟨items, hreads, hplain⟩

theorem clean_text {s : String} (h : Reading.Clean d s) : Clean d (text s) := by
  obtain ⟨ts, hs⟩ := h.tells
  exact (tells_text hs).clean

end Sql

namespace Reading

def placeholders (d : Dialect) (s : String) : List Lexeme :=
  (lexemes d s).filter (isPlaceholder d)

theorem Clean.placeholders_eq {d : Dialect} {s : String} (h : Clean d s) :
    placeholders d s = [] := by
  obtain ⟨ls, hreads, hplain⟩ := h
  rw [placeholders, hreads.lexemes_eq, List.filter_eq_nil_iff]
  intro l hl
  simp [hplain l hl]

/-- The placeholders among items are those of the values, numbered behind the ones before. -/
theorem filter_numbered {d : Dialect} {items : List Item} (h : Plain d items) (before : Nat) :
    (numbered d before items).filter (isPlaceholder d) =
      (values items).mapIdx fun k p => placeholder d (before + k + 1) p := by
  induction items generalizing before with
  | nil => rfl
  | cons item rest ih =>
    obtain ⟨hlexemes, hnull⟩ := h
    have hrest : ∀ l, .lexeme l ∈ rest → isPlaceholder d l = false :=
      fun l hl => hlexemes l (List.mem_cons_of_mem _ hl)
    cases item with
    | lexeme l =>
      have hl : isPlaceholder d l = false := hlexemes l (List.mem_cons_self ..)
      simpa [numbered, values, hl] using ih ⟨hrest, hnull⟩ before
    | value p =>
      simp only [values, List.mem_cons, not_or] at hnull
      have hp : p ≠ .null := fun he => hnull.1 he.symm
      have htail := ih ⟨hrest, hnull.2⟩ (before + 1)
      have hnumber : ∀ k, before + 1 + k + 1 = before + (k + 1) + 1 := fun k => by omega
      simp [numbered, values, isPlaceholder_placeholder d _ hp, htail, List.mapIdx_cons, hnumber]

end Reading

open Reading

/-- The placeholders of a statement and the values bound to them agree in number and in order. -/
structure Statement.Aligned (d : Dialect) (s : Statement) : Prop where
  count : (placeholders d s.sql).length = s.params.length
  bound : .null ∉ s.params
  /-- Where placeholders have numbers, they count from one and name the types of the values. -/
  numbered : d = .postgres → ∀ (k : Nat) (p : Parameter), s.params[k]? = some p →
    ∃ type, p.castType? = some type ∧
      (placeholders d s.sql)[k]? = some (.word ("$" ++ toString (k + 1) ++ "::" ++ type))

theorem Sql.Clean.aligned {d : Dialect} {x : Sql} (h : Sql.Clean d x) :
    (x.statement d).Aligned d := by
  obtain ⟨items, hreads, hplain⟩ := h
  have hparams : (x.statement d).params = values items := by
    rw [Sql.statement_params, hreads.bound_eq]
  have hplaceholders : placeholders d (x.statement d).sql =
      (values items).mapIdx fun k p => placeholder d (k + 1) p := by
    have hlexemes := hreads.lexemes_write { dialect := d } rfl
    have hfilter := filter_numbered hplain 0
    simp only [Nat.zero_add] at hfilter
    rw [placeholders, ← hfilter]
    exact congrArg _ hlexemes
  refine ⟨?_, ?_, ?_⟩
  · rw [hplaceholders, hparams, List.length_mapIdx]
  · rw [hparams]
    exact hplain.2
  · rintro rfl k p hp
    rw [hparams] at hp
    have hne : p ≠ .null := by
      rintro rfl
      exact hplain.2 (List.mem_of_getElem? hp)
    obtain ⟨type, htype⟩ := Parameter.castType?_of_ne_null hne
    refine ⟨type, htype, ?_⟩
    rw [hplaceholders, List.getElem?_mapIdx, hp]
    simp [placeholder, Dialect.placeholder, htype]

end EntityStore
