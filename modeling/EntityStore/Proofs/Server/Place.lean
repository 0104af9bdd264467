import EntityStore.Server.Report
import Mathlib.Data.List.Induction

/-!
Where a report says that an error is. A server counts the characters of a statement, and the place
of a character is told by the line breaks before it. The report counts bytes instead: it stops
before the right character when one that takes several bytes stands further in front of it, and is
right in all other cases.
-/
namespace EntityStore.Server

/-- The place of a character that is counted from one: its line is one more than the line breaks
before it, its column one more than the characters since the last of them. -/
def characterPlace (text : String) (position : Nat) : TextPlace :=
  let before := text.toList.take (position - 1)
  ⟨before.count '\n' + 1, (before.reverse.takeWhile (· != '\n')).length + 1⟩

namespace TextPlace

def pass (place : TextPlace) (c : Char) : TextPlace :=
  if c = '\n' then ⟨place.line + 1, 1⟩ else ⟨place.line, place.column + 1⟩

def Precedes (a b : TextPlace) : Prop :=
  a.line < b.line ∨ a.line = b.line ∧ a.column < b.column

variable {a b c : TextPlace}

theorem Precedes.ne (h : a.Precedes b) : a ≠ b := by
  rintro rfl
  unfold Precedes at h
  omega

theorem Precedes.trans (hab : a.Precedes b) (hbc : b.Precedes c) : a.Precedes c := by
  unfold Precedes at *
  omega

theorem precedes_pass (place : TextPlace) (c : Char) : place.Precedes (place.pass c) := by
  unfold pass
  split
  · exact .inl (Nat.lt_succ_self _)
  · exact .inr ⟨rfl, Nat.lt_succ_self _⟩

theorem precedes_foldl_pass (place : TextPlace) {cs : List Char} (hcs : cs ≠ []) :
    place.Precedes (cs.foldl pass place) := by
  induction cs generalizing place with
  | nil => exact absurd rfl hcs
  | cons c rest ih =>
    rw [List.foldl_cons]
    cases rest with
    | nil => exact place.precedes_pass c
    | cons d rest => exact (place.precedes_pass c).trans (ih _ (List.cons_ne_nil d rest))

/-- The line is told by the line breaks, and the column by what stands behind the last of them. -/
theorem foldl_pass (cs : List Char) : cs.foldl pass ⟨1, 1⟩ =
    ⟨cs.count '\n' + 1, (cs.reverse.takeWhile (· != '\n')).length + 1⟩ := by
  induction cs using List.reverseRecOn with
  | nil => rfl
  | append_singleton cs c ih =>
    rw [List.foldl_append, ih, List.foldl_cons, List.foldl_nil, pass, List.reverse_append,
      List.reverse_singleton, List.singleton_append, List.count_append]
    by_cases hc : c = '\n'
    · subst hc
      simp
    · simp [hc, List.count_cons_of_ne hc]

end TextPlace

open TextPlace

section Prefixes

variable {cs : List Char} {m n : Nat}

/-- What stands before a character tells its place from those of the characters behind it. -/
theorem precedes_of_lt (place : TextPlace) (hmn : m < n) (hn : n ≤ cs.length) :
    ((cs.take m).foldl pass place).Precedes ((cs.take n).foldl pass place) := by
  have hsplit : cs.take n = cs.take m ++ (cs.take n).drop m := by
    conv_lhs => rw [← List.take_append_drop m (cs.take n)]
    rw [List.take_take, Nat.min_eq_left (Nat.le_of_lt hmn)]
  have hne : (cs.take n).drop m ≠ [] := by
    rw [Ne, List.drop_eq_nil_iff, List.length_take]
    omega
  rw [hsplit, List.foldl_append]
  exact precedes_foldl_pass _ hne

theorem foldl_take_inj (place : TextPlace) (hm : m ≤ cs.length) (hn : n ≤ cs.length) :
    (cs.take m).foldl pass place = (cs.take n).foldl pass place ↔ m = n := by
  refine ⟨fun heq => ?_, fun heq => by rw [heq]⟩
  rcases Nat.lt_trichotomy m n with hlt | heq | hgt
  · exact absurd heq (precedes_of_lt place hlt hn).ne
  · exact heq
  · exact absurd heq.symm (precedes_of_lt place hgt hm).ne

end Prefixes

/-- How many characters begin before the byte `target`. -/
def begun (offset target : Nat) : List Char → Nat
  | [] => 0
  | c :: rest => if target ≤ offset then 0 else begun (offset + c.utf8Size) target rest + 1

section Bytes

variable {offset target : Nat}

theorem placeFrom_eq (place : TextPlace) (offset target : Nat) (cs : List Char) :
    placeFrom place offset target cs = (cs.take (begun offset target cs)).foldl pass place := by
  induction cs generalizing place offset with
  | nil => rfl
  | cons c rest ih =>
    rw [placeFrom, begun]
    split
    · rfl
    · exact ih (place.pass c) _

theorem begun_le_length (offset target : Nat) (cs : List Char) :
    begun offset target cs ≤ cs.length := by
  induction cs generalizing offset with
  | nil => exact Nat.le_refl _
  | cons c rest ih =>
    rw [begun]
    split
    · exact Nat.zero_le _
    · exact Nat.succ_le_succ (ih _)

/-- Each character takes a byte at least. -/
theorem begun_le_sub (offset target : Nat) (cs : List Char) :
    begun offset target cs ≤ target - offset := by
  induction cs generalizing offset with
  | nil => exact Nat.zero_le _
  | cons c rest ih =>
    have hle := ih (offset + c.utf8Size)
    have hsize := c.utf8Size_pos
    rw [begun]
    split <;> omega

/-- As many characters begin as there are bytes exactly where all of them but the last one take one
byte. -/
theorem begun_eq_iff {cs : List Char} {n : Nat} (hn : n ≤ cs.length) (offset : Nat) :
    begun offset (offset + n) cs = n ↔ ∀ c ∈ cs.take (n - 1), c.utf8Size = 1 := by
  induction cs generalizing offset n with
  | nil =>
    obtain rfl : n = 0 := Nat.le_zero.mp hn
    exact iff_of_true rfl nofun
  | cons c rest ih =>
    have hsize := c.utf8Size_pos
    have hle := begun_le_sub (offset + c.utf8Size) (offset + n) rest
    rw [begun]
    match n with
    | 0 => exact iff_of_true (if_pos (Nat.le_refl _)) nofun
    | 1 =>
      rw [if_neg (by omega)]
      exact iff_of_true (by omega) nofun
    | n + 2 =>
      rw [if_neg (by omega), Nat.add_succ_sub_one, List.take_succ_cons, List.forall_mem_cons]
      by_cases hc : c.utf8Size = 1
      · have hrest : _ ↔ ∀ c ∈ rest.take n, _ := ih (Nat.le_of_succ_le_succ hn) (offset + 1)
        rw [Nat.add_assoc, Nat.add_comm 1 (n + 1)] at hrest
        rw [and_iff_right hc, ← hrest, hc, Nat.succ_inj]
      · exact iff_of_false (by omega) fun h => hc h.1

end Bytes

/-- A report of an error at a character of a statement names a line and a column, which are those of
the character exactly where all characters before it, the one right before it aside, take one
byte. -/
theorem reported_place_iff (e : ServerError) (sql : String) {p : Nat} (hp : e.position = some p)
    (hlow : 1 ≤ p) (hhigh : p ≤ sql.length) :
    (e.lines sql)[1]? = some ("  at line " ++ toString (placeOf sql p).line ++ ", column " ++
      toString (placeOf sql p).column) ∧
    (placeOf sql p = characterPlace sql p ↔
      ∀ c ∈ sql.toList.take (p - 2), c.utf8Size = 1) := by
  constructor
  · simp [ServerError.lines, hp, ServerError.placeLine]
  · have hlength : p - 1 ≤ sql.toList.length := by
      rw [String.length_toList]
      omega
    have hplace : characterPlace sql p = (sql.toList.take (p - 1)).foldl pass ⟨1, 1⟩ :=
      (foldl_pass _).symm
    have hbegun := begun_eq_iff hlength 0
    rw [Nat.zero_add, Nat.sub_sub] at hbegun
    rw [placeOf, placeFrom_eq, hplace, foldl_take_inj _ (begun_le_length ..) hlength, hbegun]

theorem reported_place_of_accent :
    let sql := "SELECT é\nFROM a"
    let e : ServerError := { message := "syntax error", code := "42601", position := some 9 }
    e.position = some 9 ∧ 1 ≤ 9 ∧ 9 ≤ sql.length ∧ ('é').utf8Size = 2 ∧
    placeOf sql 9 = ⟨1, 9⟩ ∧ placeOf sql 9 = characterPlace sql 9 := by
  intro sql e
  have hright := (reported_place_iff e sql (p := 9) rfl (by decide) (by decide)).2
  have hbytes : (sql.toList.take 7).all (·.utf8Size == 1) = true := by decide
  exact ⟨rfl, by decide, by decide, rfl, by decide, hright.mpr (by simpa using hbytes)⟩

/-- Behind a letter of two bytes a report names the place before the right one. -/
theorem place_counted_in_bytes :
    let sql := "SELECT 'é'\nFROM a"
    let e : ServerError :=
      { message := "relation \"a\" does not exist", code := "42P01", position := some 17 }
    1 ≤ 17 ∧ 17 ≤ sql.length ∧ characterPlace sql 17 = ⟨2, 6⟩ ∧
    (e.lines sql)[1]? = some "  at line 2, column 5" := by
  decide

end EntityStore.Server
