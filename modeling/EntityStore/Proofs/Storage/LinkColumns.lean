import EntityStore.Schema
import Mathlib.Data.List.Basic

/-!
The two columns of a table of links. A name becomes a column by its first character in lower case;
two models share a column where they are case variants of each other, and there the second column
is renamed. The renamed one cannot meet the first again, in whatever way characters are mapped:
three characters at most stand for the first one, and the word in front is longer than that.
-/
namespace EntityStore

namespace Text

section Images

variable {runs : List CaseRun} {sequences : List (Nat × List Nat)}

theorem length_mapCase (h : ∀ p ∈ sequences, 1 ≤ p.2.length ∧ p.2.length ≤ 3) (c : Char) :
    1 ≤ (mapCase runs sequences c).length ∧ (mapCase runs sequences c).length ≤ 3 := by
  unfold mapCase
  split
  · next image himage =>
    obtain ⟨before, after, rfl, -⟩ := List.lookup_eq_some_iff.mp himage
    rw [List.length_map]
    exact h (c.toNat, image) (by simp)
  · split <;> simp

theorem length_lowerChar (c : Char) :
    1 ≤ (lowerChar c).length ∧ (lowerChar c).length ≤ 3 :=
  length_mapCase (by decide) c

theorem length_upperChar (c : Char) :
    1 ≤ (upperChar c).length ∧ (upperChar c).length ≤ 3 :=
  length_mapCase (by decide) c

theorem lowerChar_ne_nil (c : Char) : lowerChar c ≠ [] :=
  List.ne_nil_of_length_pos (length_lowerChar c).1

/-- A word of three characters in front makes up for what the first character gains or loses. -/
theorem mapFirst_ne_append {lower upper : Char → List Char} (hlower : ∀ c, (lower c).length ≤ 3)
    (hupper : ∀ c, 1 ≤ (upper c).length) {word : List Char} (hword : 3 ≤ word.length)
    (cs : List Char) : mapFirst lower cs ≠ word ++ mapFirst upper cs := by
  intro h
  have hlength := congrArg List.length h
  rw [List.length_append] at hlength
  cases cs with
  | nil =>
    simp only [mapFirst, List.length_nil] at hlength
    omega
  | cons c rest =>
    have hsmall := hlower c
    have hlarge := hupper c
    simp only [mapFirst, List.length_append] at hlength
    omega

theorem lowerFirst_ne_append {word : String} (hword : 3 ≤ word.length) (s : String) :
    lowerFirst s ≠ word ++ upperFirst s := by
  intro h
  have hlist := congrArg String.toList h
  simp only [lowerFirst, upperFirst, String.toList_append, String.toList_ofList] at hlist
  refine mapFirst_ne_append (fun c => (length_lowerChar c).2) (fun c => (length_upperChar c).1) ?_
    s.toList hlist
  rwa [String.length_toList]

end Images

section Variants

/-- Texts that differ at most in the case of their first characters. What lower case adds to the
first character of the one may stand written out in the other. -/
inductive CaseVariant : List Char → List Char → Prop
  | nil : CaseVariant [] []
  | left {c d : Char} {added : List Char} (rest : List Char)
      (h : lowerChar c = lowerChar d ++ added) : CaseVariant (c :: rest) (d :: (added ++ rest))
  | right {c d : Char} {added : List Char} (rest : List Char)
      (h : lowerChar d = lowerChar c ++ added) : CaseVariant (c :: (added ++ rest)) (d :: rest)

/-- A first character has an image that is not empty, so that no other text becomes empty. -/
theorem mapFirst_lowerChar_eq_iff {xs ys : List Char} :
    mapFirst lowerChar xs = mapFirst lowerChar ys ↔ CaseVariant xs ys := by
  constructor
  · intro h
    cases xs with
    | nil =>
      cases ys with
      | nil => exact .nil
      | cons d q => exact absurd (List.append_eq_nil_iff.mp h.symm).1 (lowerChar_ne_nil d)
    | cons c r =>
      cases ys with
      | nil => exact absurd (List.append_eq_nil_iff.mp h).1 (lowerChar_ne_nil c)
      | cons d q =>
        obtain ⟨added, himage, rfl⟩ | ⟨added, himage, rfl⟩ := List.append_eq_append_iff.mp h
        · exact .right q himage
        · exact .left r himage
  · rintro (_ | ⟨rest, himage⟩ | ⟨rest, himage⟩)
    · rfl
    all_goals simp [mapFirst, himage]

theorem lowerFirst_eq_iff {s t : String} :
    lowerFirst s = lowerFirst t ↔ CaseVariant s.toList t.toList := by
  rw [lowerFirst, lowerFirst, String.ofList_inj, mapFirst_lowerChar_eq_iff]

end Variants

end Text

namespace JoinTable

variable (model field related : String)

theorem lowerFirst_ne_renamed : Text.lowerFirst related ≠ "related" ++ Text.upperFirst related :=
  Text.lowerFirst_ne_append (by decide) related

theorem owner_ne_related : (JoinTable.of model field related).owner ≠
    (JoinTable.of model field related).related := by
  intro heq
  simp only [JoinTable.of] at heq
  split at heq
  · next hsame => exact lowerFirst_ne_renamed related (hsame.trans heq)
  · next hother => exact hother heq.symm

/-- The second column is renamed for models that would share a column, and for no others. -/
theorem related_renamed_iff :
    (JoinTable.of model field related).related = "related" ++ Text.upperFirst related ↔
      Text.CaseVariant related.toList model.toList := by
  rw [← Text.lowerFirst_eq_iff, JoinTable.of]
  split
  · next hsame => exact iff_of_true rfl hsame
  · next hother => exact iff_of_false (lowerFirst_ne_renamed related) hother

/-- A column of links is called as the generated key where one of the models is. -/
theorem columns_ne_key_iff :
    ((JoinTable.of model field related).owner ≠ "id" ∧
      (JoinTable.of model field related).related ≠ "id") ↔
    (Text.lowerFirst model ≠ "id" ∧ Text.lowerFirst related ≠ "id") := by
  simp only [JoinTable.of]
  split
  · next hsame =>
    have hrenamed : "related" ++ Text.upperFirst related ≠ "id" := by
      intro heq
      have hlength := congrArg String.length heq
      rw [String.length_append] at hlength
      have hrelated : "related".length = 7 := by decide
      have hid : "id".length = 2 := by decide
      omega
    simp [hsame, hrenamed]
  · exact Iff.rfl

end JoinTable

/-- Case mapping gives one to three characters for one. The two columns of a table of links have
different names, whatever the models and the field are called; the second column is renamed exactly
for a model that is a case variant of the owner, itself among them. -/
theorem link_columns_distinct :
    (∀ c, (1 ≤ (Text.lowerChar c).length ∧ (Text.lowerChar c).length ≤ 3) ∧
      1 ≤ (Text.upperChar c).length ∧ (Text.upperChar c).length ≤ 3) ∧
    ∀ model field related : String,
      (JoinTable.of model field related).owner ≠ (JoinTable.of model field related).related ∧
      ((JoinTable.of model field related).related = "related" ++ Text.upperFirst related ↔
        Text.CaseVariant related.toList model.toList) := by
  refine ⟨fun c => ⟨Text.length_lowerChar c, Text.length_upperChar c⟩,
    fun model field related => ⟨?_, ?_⟩⟩
  · exact JoinTable.owner_ne_related model field related
  · exact JoinTable.related_renamed_iff model field related

/-- The dot over the capital is a character of its own in lower case: the names differ in two
characters and would still share a column. -/
example : JoinTable.of "\u0130l" "roads" "i\u0307l" =
    { name := "\u0130lHasRoads", owner := "i\u0307l", related := "relatedI\u0307l" } := by
  decide

end EntityStore
