import EntityStore.Proofs.Reading.Formula

/-!
Expressions, operators and operands read back as what they were written from.
-/
namespace EntityStore.Reading

def columnLexemes (source name : String) : List Lexeme :=
  [.name source, .sign '.', .name name]

def expressionLexemes : Expression → List Lexeme
  | .column source name => columnLexemes source name
  | .localized table key source name =>
    .sign '(' :: .word "SELECT" :: columnLexemes Expression.localizedAlias name ++
      .word "FROM" :: .name table :: .word "AS" :: .name Expression.localizedAlias ::
      .word "WHERE" :: columnLexemes Expression.localizedAlias key ++
      .word "=" :: columnLexemes source key ++ [.sign ')']

def operatorLexemes : Comparison → List Lexeme
  | .notLike => [.word "NOT", .word "LIKE"]
  | c => [.word c.symbol]

section Text

theorem reads_column (d : Dialect) (source name : String) :
    Reads d (d.qualified source name) (columnLexemes source name) :=
  reads_qualified d source name

theorem reads_expression (d : Dialect) (e : Expression) :
    Reads d (e.sql d) (expressionLexemes e) := by
  cases e with
  | column source name => exact reads_column d source name
  | localized table key source name =>
    have hselect : ReadsThrough d "(SELECT " [.sign '(', .word "SELECT"] :=
      readsThrough_of_feed (by cases d <;> decide)
    have hfrom : ReadsThrough d " FROM " [.word "FROM"] :=
      readsThrough_of_feed (by cases d <;> decide)
    have has : ReadsThrough d " AS " [.word "AS"] :=
      readsThrough_of_feed (by cases d <;> decide)
    have hwhere : ReadsThrough d " WHERE " [.word "WHERE"] :=
      readsThrough_of_feed (by cases d <;> decide)
    have hequals : ReadsThrough d " = " [.word "="] :=
      readsThrough_of_feed (by cases d <;> decide)
    have hclose : ReadsThrough d ")" [.sign ')'] :=
      readsThrough_of_feed (by cases d <;> decide)
    have h₁ := hselect.append (reads_column d Expression.localizedAlias name)
    have h₂ := (h₁.appendThrough (by decide) hfrom).append (reads_quote d table)
    have h₃ := (h₂.appendThrough (by decide) has).append (reads_quote d Expression.localizedAlias)
    have h₄ := (h₃.appendThrough (by decide) hwhere).append
      (reads_column d Expression.localizedAlias key)
    have h₅ := (h₄.appendThrough (by decide) hequals).append (reads_column d source key)
    exact (h₅.appendThrough (by decide) hclose).reads

/-- An operator between blanks. -/
theorem readsThrough_operator (d : Dialect) (c : Comparison) :
    ReadsThrough d (" " ++ c.symbol ++ " ") (operatorLexemes c) := by
  apply readsThrough_of_feed
  cases d <;> cases c <;> decide

end Text

section Fill

variable {d : Dialect} {offset used : Nat} {ps : List Parameter}

theorem expressionLexemes_no_placeholder (e : Expression) :
    ∀ l ∈ expressionLexemes e, isPlaceholder d l = false := by
  have hall : (expressionLexemes e).all (fun l => !isPlaceholder d l) = true := by
    cases e <;> cases d <;> rfl
  intro l hl
  simpa using List.all_eq_true.mp hall l hl

theorem operatorLexemes_no_placeholder (c : Comparison) :
    ∀ l ∈ operatorLexemes c, isPlaceholder d l = false := by
  cases c <;> cases d <;> decide

/-- The number of a placeholder is that of the value it was written for. -/
theorem placeholderNumber_placeholder (next : Nat) {p : Parameter} (hp : p ≠ .null) :
    placeholderNumber next (placeholder d next p) = next := by
  cases d with
  | postgres =>
    obtain ⟨type, htype⟩ := Parameter.castType?_of_ne_null hp
    have hdigits : ∀ c ∈ Nat.toDigits 10 next, c.isDigit = true := fun c hc =>
      Nat.isDigit_of_mem_toDigits (by omega) (by omega) hc
    have htake : (Nat.toDigits 10 next ++ ':' :: ':' :: type.toList).takeWhile Char.isDigit =
        Nat.toDigits 10 next := by
      rw [List.takeWhile_append_of_pos hdigits]
      simp
    simp only [placeholder, placeholderNumber, placeholder_toList htype, List.drop_succ_cons,
      List.drop_zero, htake]
    exact Nat.ofDigitChars_ten_toDigits
  | _ => rfl

theorem valueItem_next {p : Parameter} (hget : ps[used]? = some p) (l : Lexeme) :
    valueItem offset ps (offset + used + 1) l = .value p := by
  have hindex : offset + used + 1 - offset - 1 = used := by omega
  have hlt : offset < offset + used + 1 := by omega
  simp only [valueItem, hlt, hindex, hget, if_true]

/-- Putting the values in the place of their placeholders gives the items back. -/
theorem fill_numbered {items : List Item} (h : Plain d items) (before after : List Parameter)
    (rest : List Lexeme) :
    fill d offset (before ++ values items ++ after) before.length
        (numbered d (offset + before.length) items ++ rest) =
      items ++ fill d offset (before ++ values items ++ after)
        (before.length + (values items).length) rest := by
  induction items generalizing before with
  | nil => simp [numbered, values]
  | cons item tail ih =>
    obtain ⟨hlexemes, hnull⟩ := h
    have htail : ∀ l, .lexeme l ∈ tail → isPlaceholder d l = false :=
      fun l hl => hlexemes l (List.mem_cons_of_mem _ hl)
    cases item with
    | lexeme l =>
      have hl : isPlaceholder d l = false := hlexemes l (List.mem_cons_self ..)
      have hrest := ih ⟨htail, hnull⟩ before
      simpa [numbered, values, fill, hl] using hrest
    | value p =>
      simp only [values, List.mem_cons, not_or] at hnull
      have hp : p ≠ .null := fun he => hnull.1 he.symm
      have hrest := ih ⟨htail, hnull.2⟩ (before ++ [p])
      have hget : (before ++ values (.value p :: tail) ++ after)[before.length]? = some p := by
        simp [values]
      have hsplit : before ++ [p] ++ values tail ++ after =
          before ++ values (.value p :: tail) ++ after := by simp [values]
      have hlength : (before ++ [p]).length = before.length + 1 := by simp
      have hcount : before.length + 1 + (values tail).length =
          before.length + (values (.value p :: tail)).length := by
        simp only [values, List.length_cons]
        omega
      rw [hsplit, hlength, hcount, ← Nat.add_assoc] at hrest
      simp only [numbered, List.cons_append, fill, isPlaceholder_placeholder d _ hp, if_true,
        placeholderNumber_placeholder _ hp, valueItem_next hget, hrest]

end Fill

section Read

theorem expect_self (l : Lexeme) (rest : List Item) : expect l (.lexeme l :: rest) = some rest := by
  simp [expect]

theorem readColumn_columnLexemes (source name : String) (rest : List Item) :
    readColumn ((columnLexemes source name).map .lexeme ++ rest) = some ((source, name), rest) := by
  unfold readColumn
  refine Option.bind_eq_some_iff.mpr ⟨(source, _), rfl, ?_⟩
  refine Option.bind_eq_some_iff.mpr ⟨_, expect_self _ _, ?_⟩
  exact Option.bind_eq_some_iff.mpr ⟨(name, _), rfl, rfl⟩

theorem readLocalized_expressionLexemes (table key source name : String) (rest : List Item) :
    readLocalized ((expressionLexemes (.localized table key source name)).map .lexeme ++ rest) =
      some (.localized table key source name, rest) := by
  simp only [expressionLexemes, List.map_cons, List.map_append, List.map_nil, List.cons_append,
    List.append_assoc, List.nil_append]
  unfold readLocalized
  refine Option.bind_eq_some_iff.mpr ⟨_, expect_self _ _, ?_⟩
  refine Option.bind_eq_some_iff.mpr ⟨_, expect_self _ _, ?_⟩
  refine Option.bind_eq_some_iff.mpr ⟨_, readColumn_columnLexemes _ _ _, ?_⟩
  refine Option.bind_eq_some_iff.mpr ⟨_, expect_self _ _, ?_⟩
  refine Option.bind_eq_some_iff.mpr ⟨(table, _), rfl, ?_⟩
  refine Option.bind_eq_some_iff.mpr ⟨_, expect_self _ _, ?_⟩
  refine Option.bind_eq_some_iff.mpr ⟨(Expression.localizedAlias, _), rfl, ?_⟩
  refine Option.bind_eq_some_iff.mpr ⟨_, expect_self _ _, ?_⟩
  refine Option.bind_eq_some_iff.mpr ⟨_, readColumn_columnLexemes _ _ _, ?_⟩
  refine Option.bind_eq_some_iff.mpr ⟨_, expect_self _ _, ?_⟩
  refine Option.bind_eq_some_iff.mpr ⟨_, readColumn_columnLexemes _ _ _, ?_⟩
  refine Option.bind_eq_some_iff.mpr ⟨_, expect_self _ _, ?_⟩
  exact if_pos ⟨rfl, rfl, rfl, rfl⟩

theorem readExpression_expressionLexemes (e : Expression) (rest : List Item) :
    readExpression ((expressionLexemes e).map .lexeme ++ rest) = some (e, rest) := by
  cases e with
  | column source name =>
    have h := readColumn_columnLexemes source name rest
    simp only [columnLexemes, List.map_cons, List.map_nil, List.cons_append, List.nil_append] at h
    simp [expressionLexemes, columnLexemes, readExpression, h]
  | localized table key source name =>
    exact readLocalized_expressionLexemes table key source name rest

theorem readOperator_operatorLexemes (c : Comparison) (rest : List Item) :
    readOperator ((operatorLexemes c).map .lexeme ++ rest) = some (c, rest) := by
  cases c <;> rfl

end Read

end EntityStore.Reading
