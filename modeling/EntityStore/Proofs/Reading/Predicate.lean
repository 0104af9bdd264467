import EntityStore.Proofs.Reading.Expression
import Mathlib.Data.List.Forall2

/-!
A predicate reads back as the formula that it stands for: each comparison and each connector in its
own parentheses, so that no operator binds what it should not.
-/
namespace EntityStore

open Reading

/-- What holds of comparisons, and of connectors whose children it holds of, holds of predicates. -/
@[elab_as_elim]
theorem Predicate.induction {motive : Predicate → Prop}
    (compare : ∀ left operator right, motive (.compare left operator right))
    (connect : ∀ operator children, (∀ p ∈ children, motive p) →
      motive (.connect operator children)) (p : Predicate) : motive p :=
  @Predicate.rec motive (fun ps => ∀ p ∈ ps, motive p) compare connect (by simp)
    (fun _ _ hp hrest => List.forall_mem_cons.mpr ⟨hp, hrest⟩) p

def Operand.items : Operand → List Item
  | expression e => (expressionLexemes e).map .lexeme
  | value .null => [.lexeme (.word "NULL")]
  | value p => [.value p]

namespace Predicate

mutual

def items : Predicate → List Item
  | compare left operator right =>
    ([Lexeme.sign '('] ++ expressionLexemes left ++ operatorLexemes operator).map .lexeme ++
      right.items ++ [.lexeme (.sign ')')]
  | connect operator children =>
    [.lexeme (.sign '(')] ++ joinItems [.word operator.symbol] (itemsOf children) ++
      [.lexeme (.sign ')')]

def itemsOf : List Predicate → List (List Item)
  | [] => []
  | p :: rest => items p :: itemsOf rest

end

mutual

/-- The formula that the predicate stands for. A connector has to have something to connect. -/
def formula? : Predicate → Option Formula
  | compare left operator right => some (.leaf ⟨left, operator, right⟩)
  | connect operator children => joined? operator children

def joined? (operator : Connector) : List Predicate → Option Formula
  | [] => none
  | p :: rest =>
    match rest with
    | [] => formula? p
    | _ :: _ => do
      let f ← formula? p
      let g ← joined? operator rest
      some (.join operator f g)

end

theorem joined?_cons_cons {operator : Connector} {p q : Predicate} {rest : List Predicate}
    {f : Formula} : joined? operator (p :: q :: rest) = some f ↔
      ∃ g h, p.formula? = some g ∧ joined? operator (q :: rest) = some h ∧
        f = .join operator g h := by
  rw [joined?]
  simp only [Option.bind_eq_bind, Option.bind_eq_some_iff, Option.some.injEq]
  constructor
  · rintro ⟨g, hg, h, hh, rfl⟩
    exact ⟨g, h, hg, hh, rfl⟩
  · rintro ⟨g, h, hg, hh, rfl⟩
    exact ⟨g, hg, h, hh, rfl⟩

theorem sqls_eq_map (d : Dialect) (ps : List Predicate) : sqls d ps = ps.map (sql d) := by
  induction ps with
  | nil => rfl
  | cons p rest ih => simp [sqls, ih]

theorem itemsOf_eq_map (ps : List Predicate) : itemsOf ps = ps.map items := by
  induction ps with
  | nil => rfl
  | cons p rest ih => simp [itemsOf, ih]

end Predicate

def Operand.bound? : Operand → Option Parameter
  | expression _ => none
  | value p => p.bound?

def Leaf.bound (ls : List Leaf) : List Parameter :=
  ls.filterMap fun l => l.right.bound?

section Values

@[simp] theorem Operand.values_items (o : Operand) : values o.items = o.bound?.toList := by
  cases o with
  | expression e => simp [items, bound?]
  | value p => cases p <;> rfl

private theorem values_joined {operator : Connector} {ps : List Predicate} {f : Formula}
    (hps : ∀ p ∈ ps, ∀ g, p.formula? = some g → values p.items = Leaf.bound g.leaves)
    (hf : Predicate.joined? operator ps = some f) :
    ps.flatMap (fun p => values p.items) = Leaf.bound f.leaves := by
  induction ps generalizing f with
  | nil => simp [Predicate.joined?] at hf
  | cons p rest ih =>
    have hp := hps p (List.mem_cons_self ..)
    cases rest with
    | nil =>
      simp only [Predicate.joined?] at hf
      simpa using hp f hf
    | cons q tail =>
      obtain ⟨g, h, hg, hh, rfl⟩ := Predicate.joined?_cons_cons.mp hf
      have hrest := ih (fun x hx => hps x (List.mem_cons_of_mem _ hx)) hh
      rw [List.flatMap_cons, hp g hg, hrest]
      simp [Formula.leaves, Leaf.bound]

/-- The values among the items of a predicate are those that its comparisons bind. -/
theorem Predicate.values_items (p : Predicate) :
    ∀ f, p.formula? = some f → values p.items = Leaf.bound f.leaves := by
  induction p using Predicate.induction with
  | compare left operator right =>
    intro f hf
    simp only [formula?, Option.some.injEq] at hf
    subst hf
    cases hright : right.bound? <;>
      simp [items, Formula.leaves, Leaf.bound, hright, values]
  | connect operator children ih =>
    intro f hf
    have hchildren := values_joined ih hf
    simpa [items, values, values_joinItems, itemsOf_eq_map, List.flatMap_map] using hchildren

end Values

section Text

variable (d : Dialect)

theorem Operand.reads (o : Operand) : Sql.Reads d (o.sql d) o.items := by
  cases o with
  | expression e => exact Sql.reads_text (reads_expression d e)
  | value p =>
    cases p with
    | null => exact Sql.reads_value_null d
    | _ => exact Sql.reads_value d (by simp)

theorem Operand.plain (o : Operand) : Plain d o.items := by
  cases o with
  | expression e => exact plain_lexemes (expressionLexemes_no_placeholder e)
  | value p =>
    cases p with
    | null => exact plain_lexeme (by cases d <;> decide)
    | _ => exact plain_value (by simp)

private theorem reads_open : Reading.ReadsThrough d "(" [.sign '('] :=
  readsThrough_of_feed (by cases d <;> decide)

private theorem reads_close : Reading.ReadsThrough d ")" [.sign ')'] :=
  readsThrough_of_feed (by cases d <;> decide)

private theorem reads_connector (c : Connector) :
    Reading.ReadsThrough d (" " ++ c.symbol ++ " ") [.word c.symbol] := by
  apply readsThrough_of_feed
  cases d <;> cases c <;> decide

/-- The text of a predicate reads as its items. -/
theorem Predicate.reads (p : Predicate) : Sql.Reads d (p.sql d) p.items := by
  induction p using Predicate.induction with
  | compare left operator right =>
    have hleft := ((reads_open d).append (reads_expression d left)).appendThrough
      (by cases operator <;> decide) (readsThrough_operator d operator)
    have hall := ((Sql.readsThrough_text hleft).append (right.reads d)).appendText
      (by decide) (reads_close d)
    rw [← String.append_assoc, ← String.append_assoc] at hall
    exact hall.reads
  | connect operator children ih =>
    have hchildren : List.Forall₂ (Sql.Reads d) (sqls d children) (itemsOf children) := by
      rw [sqls_eq_map, itemsOf_eq_map]
      exact List.forall₂_map_left_iff.mpr
        (List.forall₂_map_right_iff.mpr (List.forall₂_same.mpr ih))
    have hjoin := Sql.reads_join (by cases operator <;> decide) (reads_connector d operator)
      hchildren
    exact (((Sql.readsThrough_text (reads_open d)).append hjoin).appendText
      (by decide) (reads_close d)).reads

theorem Predicate.plain (p : Predicate) : Plain d p.items := by
  have hclose : Plain d [.lexeme (.sign ')')] := plain_lexeme (by cases d <;> decide)
  induction p using Predicate.induction with
  | compare left operator right =>
    refine ((plain_lexemes ?_).append (right.plain d)).append hclose
    intro l hl
    simp only [List.mem_append, List.mem_singleton, or_assoc] at hl
    rcases hl with rfl | hleft | hoperator
    · cases d <;> decide
    · exact expressionLexemes_no_placeholder left l hleft
    · exact operatorLexemes_no_placeholder operator l hoperator
  | connect operator children ih =>
    have hopen : Plain d [.lexeme (.sign '(')] := plain_lexeme (by cases d <;> decide)
    have hjoin : Plain d (joinItems [.word operator.symbol] (itemsOf children)) := by
      apply plain_joinItems
      · cases d <;> cases operator <;> decide
      · rw [itemsOf_eq_map]
        intro part hpart
        obtain ⟨p, hp, rfl⟩ := List.mem_map.mp hpart
        exact ih p hp
    exact (hopen.append hjoin).append hclose

end Text

section Read

theorem readOperand_items (o : Operand) (rest : List Item) :
    readOperand (o.items ++ rest) = some (o, rest) := by
  cases o with
  | value p => cases p <;> simp [Operand.items, readOperand, expect]
  | expression e =>
    have h := readExpression_expressionLexemes e rest
    cases e <;> simpa [Operand.items, readOperand, expressionLexemes, columnLexemes] using h

theorem readComparison_items (l : Leaf) (rest : List Item) :
    readComparison ((expressionLexemes l.left ++ operatorLexemes l.operator).map .lexeme ++
      (l.right.items ++ rest)) = some (.leaf l, rest) := by
  simp only [readComparison, List.map_append, List.append_assoc,
    readExpression_expressionLexemes, readOperator_operatorLexemes, readOperand_items,
    Option.bind_eq_bind, Option.bind_some]

/-- A subselect opens no condition in parentheses. -/
theorem opensGroup_expression (e : Expression) (rest : List Item) :
    opensGroup ((expressionLexemes e).map .lexeme ++ rest) = false := by
  cases e <;> simp [expressionLexemes, columnLexemes, opensGroup]

section Steps

variable {depth : Nat} {items rest rest' : List Item} {f g : Formula}

theorem readPrimary_group (hopens : opensGroup (.lexeme (.sign '(') :: items) = true)
    (h : readDisjunction depth items = some (f, .lexeme (.sign ')') :: rest)) :
    readPrimary (depth + 1) (.lexeme (.sign '(') :: items) = some (f, rest) := by
  simp only [readPrimary, hopens, if_true, List.drop_succ_cons, List.drop_zero, h,
    Option.bind_eq_bind, Option.bind_some, expect_self]

theorem readPrimary_comparison (hopens : opensGroup items = false)
    (h : readComparison items = some (f, rest)) :
    readPrimary (depth + 1) items = some (f, rest) := by
  simp only [readPrimary, hopens, Bool.false_eq_true, if_false, h]

theorem readConjunction_single (h : readPrimary depth items = some (f, rest))
    (hrest : expect (.word "AND") rest = none) :
    readConjunction (depth + 1) items = some (f, rest) := by
  simp only [readConjunction, h, Option.bind_eq_bind, Option.bind_some, hrest]

theorem readConjunction_and
    (h : readPrimary depth items = some (f, .lexeme (.word "AND") :: rest))
    (hrest : readConjunction depth rest = some (g, rest')) :
    readConjunction (depth + 1) items = some (.join .and f g, rest') := by
  simp only [readConjunction, h, Option.bind_eq_bind, Option.bind_some, expect_self, hrest]

theorem readDisjunction_single (h : readConjunction depth items = some (f, rest))
    (hrest : expect (.word "OR") rest = none) :
    readDisjunction (depth + 1) items = some (f, rest) := by
  simp only [readDisjunction, h, Option.bind_eq_bind, Option.bind_some, hrest]

theorem readDisjunction_or
    (h : readConjunction depth items = some (f, .lexeme (.word "OR") :: rest))
    (hrest : readDisjunction depth rest = some (g, rest')) :
    readDisjunction (depth + 1) items = some (.join .or f g, rest') := by
  simp only [readDisjunction, h, Option.bind_eq_bind, Option.bind_some, expect_self, hrest]

end Steps

namespace Predicate

/-- A predicate begins with a parenthesis. -/
theorem items_eq_cons (p : Predicate) : ∃ tail, p.items = .lexeme (.sign '(') :: tail := by
  cases p <;> exact ⟨_, rfl⟩

theorem items_length_pos (p : Predicate) : 0 < p.items.length := by
  obtain ⟨tail, htail⟩ := p.items_eq_cons
  simp [htail]

/-- No word follows the first parenthesis of a predicate. -/
theorem opensGroup_items (p : Predicate) (rest : List Item) :
    opensGroup (p.items ++ rest) = true := by
  cases p with
  | compare left operator right =>
    cases left <;> simp [items, expressionLexemes, columnLexemes, opensGroup]
  | connect operator children =>
    cases children with
    | nil => simp [items, itemsOf, joinItems, opensGroup]
    | cons first others =>
      obtain ⟨tail, htail⟩ := first.items_eq_cons
      cases others <;> simp [items, itemsOf, joinItems, opensGroup, htail]

/-- The predicate is read as its formula, and reading stops behind it. -/
def ReadsBack (p : Predicate) : Prop :=
  ∀ f, p.formula? = some f → ∀ depth rest, 4 * p.items.length ≤ depth →
    readPrimary depth (p.items ++ rest) = some (f, rest)

section Joined

variable {ps : List Predicate} {f : Formula} {depth : Nat} {rest : List Item}

/-- What AND joins is read as one conjunction. -/
theorem readConjunction_joined (hps : ∀ p ∈ ps, p.ReadsBack) (hf : joined? .and ps = some f)
    (hdepth : 4 * (joinItems [.word "AND"] (itemsOf ps)).length + 1 ≤ depth)
    (hrest : expect (.word "AND") rest = none) :
    readConjunction depth (joinItems [.word "AND"] (itemsOf ps) ++ rest) = some (f, rest) := by
  induction ps generalizing f depth with
  | nil => simp [joined?] at hf
  | cons p others ih =>
    have hp : p.ReadsBack := hps p (List.mem_cons_self ..)
    obtain ⟨n, rfl⟩ : ∃ n, depth = n + 1 := ⟨depth - 1, by omega⟩
    cases others with
    | nil =>
      simp only [joined?] at hf
      simp only [itemsOf, joinItems] at hdepth ⊢
      exact readConjunction_single (hp f hf n rest (by omega)) hrest
    | cons q tail =>
      obtain ⟨g, h, hg, hh, rfl⟩ := joined?_cons_cons.mp hf
      have hpos := p.items_length_pos
      simp only [itemsOf, joinItems, List.length_append, List.length_map] at hdepth
      have hlength : 4 * (joinItems [.word "AND"] (itemsOf (q :: tail))).length + 1 ≤ n := by
        simp only [itemsOf]
        omega
      have hsecond := ih (fun x hx => hps x (List.mem_cons_of_mem _ hx)) hh hlength
      simp only [itemsOf, joinItems, List.append_assoc] at hsecond ⊢
      exact readConjunction_and (hp g hg n _ (by omega)) hsecond

/-- What OR joins is read as one disjunction. -/
theorem readDisjunction_joined (hps : ∀ p ∈ ps, p.ReadsBack) (hf : joined? .or ps = some f)
    (hdepth : 4 * (joinItems [.word "OR"] (itemsOf ps)).length + 2 ≤ depth)
    (hand : expect (.word "AND") rest = none) (hor : expect (.word "OR") rest = none) :
    readDisjunction depth (joinItems [.word "OR"] (itemsOf ps) ++ rest) = some (f, rest) := by
  induction ps generalizing f depth with
  | nil => simp [joined?] at hf
  | cons p others ih =>
    have hp : p.ReadsBack := hps p (List.mem_cons_self ..)
    obtain ⟨n, rfl⟩ : ∃ n, depth = n + 2 := ⟨depth - 2, by omega⟩
    cases others with
    | nil =>
      simp only [joined?] at hf
      simp only [itemsOf, joinItems] at hdepth ⊢
      exact readDisjunction_single (readConjunction_single (hp f hf n rest (by omega)) hand) hor
    | cons q tail =>
      obtain ⟨g, h, hg, hh, rfl⟩ := joined?_cons_cons.mp hf
      have hpos := p.items_length_pos
      simp only [itemsOf, joinItems, List.length_append, List.length_map] at hdepth
      have hlength : 4 * (joinItems [.word "OR"] (itemsOf (q :: tail))).length + 2 ≤ n + 1 := by
        simp only [itemsOf]
        omega
      have hsecond := ih (fun x hx => hps x (List.mem_cons_of_mem _ hx)) hh hlength
      simp only [itemsOf, joinItems, List.append_assoc] at hsecond ⊢
      exact readDisjunction_or
        (readConjunction_single (hp g hg n _ (by omega)) (by simp [expect])) hsecond

end Joined

/-- Every predicate reads back, whatever follows it. -/
theorem readsBack (p : Predicate) : p.ReadsBack := by
  have hnoWord : ∀ s rest, expect (.word s) (.lexeme (.sign ')') :: rest) = none := by
    intro s rest
    simp [expect]
  induction p using Predicate.induction with
  | compare left operator right =>
    intro f hf depth rest hdepth
    simp only [formula?, Option.some.injEq] at hf
    subst hf
    have hopens := opensGroup_items (.compare left operator right) rest
    simp only [items, List.append_assoc, List.map_append, List.map_cons, List.cons_append,
      List.nil_append, List.length_append, List.length_cons] at hdepth hopens ⊢
    obtain ⟨n, rfl⟩ : ∃ n, depth = n + 4 := ⟨depth - 4, by omega⟩
    have hcomparison := readComparison_items ⟨left, operator, right⟩ (.lexeme (.sign ')') :: rest)
    simp only [List.append_assoc, List.map_append] at hcomparison
    have hprimary := @readPrimary_comparison n _ _ _ (opensGroup_expression left _) hcomparison
    exact readPrimary_group hopens (readDisjunction_single
      (readConjunction_single hprimary (hnoWord _ _)) (hnoWord _ _))
  | connect operator children ih =>
    intro f hf depth rest hdepth
    have hopens := opensGroup_items (.connect operator children) rest
    simp only [formula?] at hf
    simp only [items, List.append_assoc, List.cons_append, List.nil_append, List.length_append,
      List.length_cons, List.length_nil] at hdepth hopens ⊢
    obtain ⟨n, rfl⟩ : ∃ n, depth = n + 2 := ⟨depth - 2, by omega⟩
    cases operator with
    | and =>
      have hlength : 4 * (joinItems [.word "AND"] (itemsOf children)).length + 1 ≤ n := by
        simp only [Connector.symbol] at hdepth
        omega
      have hinner := readConjunction_joined ih hf hlength (hnoWord "AND" rest)
      exact readPrimary_group hopens (readDisjunction_single hinner (hnoWord _ _))
    | or =>
      have hlength : 4 * (joinItems [.word "OR"] (itemsOf children)).length + 2 ≤ n + 1 := by
        simp only [Connector.symbol] at hdepth
        omega
      have hinner := readDisjunction_joined ih hf hlength (hnoWord "AND" rest) (hnoWord "OR" rest)
      exact readPrimary_group hopens hinner

theorem readItems_items {p : Predicate} {f : Formula} (hf : p.formula? = some f) :
    readItems p.items = some f := by
  have hprimary := p.readsBack f hf (4 * p.items.length) [] (Nat.le_refl _)
  rw [List.append_nil] at hprimary
  have hread := readDisjunction_single (readConjunction_single hprimary rfl) rfl
  simp [readItems, hread]

end Predicate

end Read

end EntityStore
