import EntityStore.Proofs.Selection.Stored

/-!
The names by which the tables of a scope go, and those by which its columns are qualified. A scope
is well formed when its tables go by names that are apart and its columns are qualified by none
but these. A subselect compares a column of its own with one of the row around it, which it
reaches unless one of its own tables goes by that name.
-/
namespace EntityStore

open Reading

namespace Reading

def namesOf (ms : List Mention) : List String :=
  (tablesOf ms).map Prod.fst

def Mention.qualifier? : Mention → Option String
  | column source _ => source
  | table _ | label _ | scope _ => none

def qualifiers (ms : List Mention) : List String :=
  ms.filterMap Mention.qualifier?

structure WellScoped (ms : List Mention) : Prop where
  names_apart : (namesOf ms).Nodup
  columns_known : ∀ name ∈ qualifiers ms, name ∈ namesOf ms

/-- Each subselect ends in a comparison of a column of one of its tables with a column of the row
around it, and none of its tables goes by the name of that row. -/
inductive Mention.CaptureFree : Mention → Prop
  | table (name : String) : CaptureFree (.table name)
  | label (name : String) : CaptureFree (.label name)
  | column (source : Option String) (name : String) : CaptureFree (.column source name)
  | scope {inner front : List Mention} {own key source name : String} :
    inner = front ++ [.column (some own) key, .column (some source) name] →
    own ∈ namesOf inner → source ∉ namesOf inner → (∀ m ∈ front, CaptureFree m) →
    CaptureFree (.scope inner)

section Lists

variable {ms ns : List Mention}

@[simp] theorem qualifiers_append (ms ns : List Mention) :
    qualifiers (ms ++ ns) = qualifiers ms ++ qualifiers ns :=
  List.filterMap_append

theorem qualifiers_flatMap {α : Type} (said : α → List Mention) (xs : List α) :
    qualifiers (xs.flatMap said) = xs.flatMap fun x => qualifiers (said x) := by
  induction xs with
  | nil => rfl
  | cons x rest ih => rw [List.flatMap_cons, qualifiers_append, ih, List.flatMap_cons]

theorem forall_mem_qualifiers_flatMap {α : Type} {said : α → List Mention} {xs : List α}
    {P : String → Prop} : (∀ name ∈ qualifiers (xs.flatMap said), P name) ↔
      ∀ x ∈ xs, ∀ name ∈ qualifiers (said x), P name := by
  rw [qualifiers_flatMap]
  exact List.forall_mem_flatMap

/-- Values name no table. -/
theorem tablesOf_values (h : ms.any Mention.isTable = false) : tablesOf ms = [] := by
  have hnone := tablesOf_append h []
  rwa [List.append_nil] at hnone

/-- What a text mentions can be told from its parts. -/
theorem Mentions.mentions_eq {d : Dialect} {s : String} (h : Mentions d s ms) :
    mentions d s = ms := by
  obtain ⟨ts, ⟨ls, hreads, -, rfl⟩, hsays⟩ := h
  rw [mentions, tokens, hreads.lexemes_eq, hsays]
  simp

/-- Whether a subselect that ends in a comparison reaches the row around it. -/
theorem captureFree_comparison {front : List Mention} {own key source name : String} :
    (Mention.scope (front ++ [.column (some own) key, .column (some source) name])).CaptureFree ↔
      own ∈ namesOf (front ++ [.column (some own) key, .column (some source) name]) ∧
      source ∉ namesOf (front ++ [.column (some own) key, .column (some source) name]) ∧
      ∀ m ∈ front, m.CaptureFree := by
  constructor
  · intro h
    cases h with
    | scope hinner hown hsource hfront =>
      obtain ⟨rfl, hlast⟩ := List.append_inj' hinner rfl
      simp only [List.cons.injEq, Mention.column.injEq, Option.some.injEq, and_true] at hlast
      obtain ⟨⟨rfl, rfl⟩, rfl, rfl⟩ := hlast
      exact ⟨hown, hsource, hfront⟩
  · rintro ⟨hown, hsource, hfront⟩
    exact .scope rfl hown hsource hfront

end Lists

end Reading

namespace Expression

def source : Expression → String
  | column source _ => source
  | localized _ _ source _ => source

def isLocalized : Expression → Bool
  | column _ _ => false
  | localized .. => true

theorem qualifiers_mentions (e : Expression) :
    qualifiers e.mentions = if e.isLocalized then [] else [e.source] := by
  cases e <;> rfl

/-- A subselect for a localized value reaches its row unless that goes by its own alias. -/
theorem captureFree_mentions (e : Expression) : (∀ m ∈ e.mentions, m.CaptureFree) ↔
    (e.isLocalized = true → e.source ≠ localizedAlias) := by
  cases e with
  | column source name => simp [mentions, isLocalized, Mention.CaptureFree.column]
  | localized table key source name =>
    have hcomparison := @captureFree_comparison
      [.column (some localizedAlias) name, .table table, .label localizedAlias]
      localizedAlias key source key
    simp only [List.cons_append, List.nil_append] at hcomparison
    rw [mentions, List.forall_mem_singleton, hcomparison]
    simp [namesOf, tablesOf, isLocalized, Expression.source, Mention.CaptureFree.column,
      Mention.CaptureFree.table, Mention.CaptureFree.label]

end Expression

section Clauses

def Projected.qualifiers : Projected → List String
  | column source _ => [source]
  | named e _ => if e.isLocalized then [] else [e.source]
  | embedded _ => []

theorem Projected.qualifiers_mentions (p : Projected) :
    Reading.qualifiers p.mentions = p.qualifiers := by
  cases p with
  | column source name => rfl
  | named e name =>
    rw [mentions, qualifiers_append, e.qualifiers_mentions]
    exact List.append_nil _
  | embedded row => rfl

def Projected.Reaches : Projected → Prop
  | column _ _ => True
  | named e _ => e.isLocalized = true → e.source ≠ Expression.localizedAlias
  | embedded row => row.source ≠ EmbeddedRow.rowAlias ∧
      ∀ pair ∈ row.pairs, pair.2.isLocalized = true → pair.2.source ≠ Expression.localizedAlias

theorem namesOf_embeddedRow (e : EmbeddedRow) :
    namesOf ((e.pairs.flatMap fun p => p.2.mentions) ++
      [.table e.table, .label EmbeddedRow.rowAlias] ++
      [.column (some EmbeddedRow.rowAlias) e.key, .column (some e.source) e.field]) =
      [EmbeddedRow.rowAlias] := by
  have hpairs := Mention.no_table_of_values (pairs_mentions_values e.pairs)
  rw [namesOf, List.append_assoc, tablesOf_append hpairs]
  rfl

theorem Projected.captureFree_mentions (p : Projected) :
    (∀ m ∈ p.mentions, m.CaptureFree) ↔ p.Reaches := by
  cases p with
  | column source name =>
    simp [mentions, Reaches, Mention.CaptureFree.column]
  | named e name =>
    simp only [mentions, List.forall_mem_append, e.captureFree_mentions, Reaches,
      List.forall_mem_singleton, Mention.CaptureFree.label, and_true]
  | embedded row =>
    have hcomparison := @captureFree_comparison
      ((row.pairs.flatMap fun p => p.2.mentions) ++ [.table row.table, .label EmbeddedRow.rowAlias])
      EmbeddedRow.rowAlias row.key row.source row.field
    rw [namesOf_embeddedRow] at hcomparison
    have hmentions : (Projected.embedded row).mentions =
        [.scope ((row.pairs.flatMap fun p => p.2.mentions) ++
          [.table row.table, .label EmbeddedRow.rowAlias] ++
          [.column (some EmbeddedRow.rowAlias) row.key, .column (some row.source) row.field]),
          .label row.field] := by
      simp [mentions, EmbeddedRow.mentions]
    have hfront : ∀ m ∈ [Mention.table row.table, .label EmbeddedRow.rowAlias], m.CaptureFree :=
      List.forall_mem_cons.mpr ⟨.table _, List.forall_mem_singleton.mpr (.label _)⟩
    have hlabel : ∀ m ∈ [Mention.label row.field], m.CaptureFree :=
      List.forall_mem_singleton.mpr (.label _)
    rw [hmentions, List.forall_mem_cons, hcomparison, List.forall_mem_append,
      List.forall_mem_flatMap]
    simp only [Expression.captureFree_mentions]
    constructor
    · rintro ⟨⟨-, hsource, hpairs, -⟩, -⟩
      exact ⟨fun heq => hsource (List.mem_singleton.mpr heq), hpairs⟩
    · rintro ⟨hsource, hpairs⟩
      refine ⟨⟨List.mem_singleton.mpr rfl, ?_, hpairs, hfront⟩, hlabel⟩
      exact fun hmem => hsource (List.mem_singleton.mp hmem)

end Clauses

def Operand.expressions : Operand → List Expression
  | expression e => [e]
  | value _ => []

def Leaf.expressions (l : Leaf) : List Expression :=
  l.left :: l.right.expressions

namespace Predicate

private theorem mentions_joined {operator : Connector} {ps : List Predicate} {f : Formula}
    (hps : ∀ p ∈ ps, ∀ g, p.formula? = some g →
      p.mentions = (g.leaves.flatMap Leaf.expressions).flatMap Expression.mentions)
    (hf : joined? operator ps = some f) : ps.flatMap mentions =
      (f.leaves.flatMap Leaf.expressions).flatMap Expression.mentions := by
  induction ps generalizing f with
  | nil => simp [joined?] at hf
  | cons p rest ih =>
    have hp := hps p (List.mem_cons_self ..)
    cases rest with
    | nil =>
      simp only [joined?] at hf
      simpa using hp f hf
    | cons q tail =>
      obtain ⟨g, h, hg, hh, rfl⟩ := joined?_cons_cons.mp hf
      have hrest := ih (fun x hx => hps x (List.mem_cons_of_mem _ hx)) hh
      rw [List.flatMap_cons, hp g hg, hrest]
      simp [Formula.leaves]

/-- A predicate mentions what its comparisons read. -/
theorem mentions_eq_leaves (p : Predicate) : ∀ f, p.formula? = some f →
    p.mentions = (f.leaves.flatMap Leaf.expressions).flatMap Expression.mentions := by
  induction p using Predicate.induction with
  | compare left operator right =>
    intro f hf
    simp only [formula?, Option.some.injEq] at hf
    subst hf
    cases right <;> simp [mentions, Operand.mentions, Formula.leaves, Leaf.expressions,
      Operand.expressions]
  | connect operator children ih =>
    intro f hf
    rw [mentions, mentionsOf_eq_flatMap]
    exact mentions_joined ih hf

end Predicate

namespace Condition

def compared (r : Registry) (model : String) (c : Condition) : List Expression :=
  (leaves r model [] c).flatMap Leaf.expressions

/-- What is kept of a condition mentions what its kept comparisons read. -/
theorem mentions_resolve? (r : Registry) (model : String) (c : Condition) :
    (c.resolve? r model).toList.flatMap Predicate.mentions =
      (c.compared r model).flatMap Expression.mentions := by
  rcases resolves r model c [] with ⟨hnone, -, hno⟩ | ⟨p, f, hsome, -, hf, hleaves, -⟩
  · have hnone : c.resolve? r model = none := hnone
    simp [hnone, compared, hno]
  · have hsome : c.resolve? r model = some p := hsome
    rw [hsome, Option.toList_some, List.flatMap_singleton, p.mentions_eq_leaves f hf, hleaves]
    rfl

end Condition

end EntityStore
