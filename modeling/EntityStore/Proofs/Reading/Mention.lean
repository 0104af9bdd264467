import EntityStore.Proofs.Reading.Clean
import EntityStore.Table
import Mathlib.Data.List.Forall2

/-!
The tables and columns that a statement names. A name behind a word that leads to tables is that of
a table, a name behind `AS` is new, and any other name is that of a column, with the name of a table
and a point before it or without. Parentheses that name a table are a scope of their own.
-/
namespace EntityStore

namespace Reading

inductive Mention where
  | table (name : String)
  /-- A new name for the table right before it, or for a value. -/
  | label (name : String)
  | column (source : Option String) (name : String)
  | scope (inner : List Mention)

namespace Mention

def isTable : Mention → Bool
  | table _ => true
  | _ => false

def isValue : Mention → Bool
  | column _ _ | scope _ => true
  | table _ | label _ => false

def enclosed (inner : List Mention) : List Mention :=
  if inner.any isTable then [.scope inner] else inner

theorem no_table_of_values {ms : List Mention} (h : ms.all isValue = true) :
    ms.any isTable = false := by
  rw [List.any_eq_false]
  intro m hm
  have hvalue := List.all_eq_true.mp h m hm
  cases m with
  | table name => cases hvalue
  | _ => simp [isTable]

/-- Parentheses around values are no scope. -/
theorem enclosed_values {ms : List Mention} (h : ms.all isValue = true) : enclosed ms = ms := by
  rw [enclosed, no_table_of_values h, if_neg Bool.false_ne_true]

end Mention

inductive Expecting where
  | column
  | table
  | label
  /-- The column of a table or of an alias that has been named. -/
  | columnOf (source : String)
deriving DecidableEq

structure Reader where
  expecting : Expecting := .column
  current : List Mention := []
  outer : List (List Mention) := []

namespace Reader

def mention (m : Reader) (s : String) : Mention :=
  match m.expecting with
  | .column => .column none s
  | .table => .table s
  | .label => .label s
  | .columnOf source => .column (some source) s

def step (m : Reader) : Token → Reader
  | .name s => { m with expecting := .column, current := m.mention s :: m.current }
  | .point =>
    match m.current with
    | .column none source :: before => { m with expecting := .columnOf source, current := before }
    | _ => m
  | .table => { m with expecting := .table }
  | .as => { m with expecting := .label }
  | .opening => ⟨.column, [], m.current :: m.outer⟩
  | .closing =>
    match m.outer with
    | before :: outer =>
      ⟨.column, (Mention.enclosed m.current.reverse).reverse ++ before, outer⟩
    | [] => m

end Reader

def mentions (d : Dialect) (s : String) : List Mention :=
  ((tokens d s).foldl Reader.step {}).current.reverse

/-- The tokens mention these tables and columns, whatever stands before them. -/
def Says (ts : List Token) (ms : List Mention) : Prop :=
  ∀ current outer, ts.foldl Reader.step ⟨.column, current, outer⟩ =
    ⟨.column, ms.reverse ++ current, outer⟩

section Says

variable {ts us : List Token} {ms ns : List Mention}

theorem says_nil : Says [] [] :=
  fun _ _ => rfl

theorem Says.append (hts : Says ts ms) (hus : Says us ns) : Says (ts ++ us) (ms ++ ns) := by
  intro current outer
  rw [List.foldl_append, hts, hus, List.reverse_append, List.append_assoc]

theorem says_name (s : String) : Says [.name s] [.column none s] :=
  fun _ _ => rfl

theorem says_qualified (source name : String) :
    Says [.name source, .point, .name name] [.column (some source) name] :=
  fun _ _ => rfl

theorem says_table (name : String) : Says [.table, .name name] [.table name] :=
  fun _ _ => rfl

theorem says_label (name : String) : Says [.as, .name name] [.label name] :=
  fun _ _ => rfl

theorem Says.enclosed (h : Says ts ms) :
    Says (.opening :: (ts ++ [.closing])) (Mention.enclosed ms) := by
  intro current outer
  rw [List.foldl_cons, List.foldl_append, Reader.step, h]
  simp [Reader.step]

theorem says_flatMap {α : Type} {told : α → List Token} {said : α → List Mention} {xs : List α}
    (h : ∀ x ∈ xs, Says (told x) (said x)) : Says (xs.flatMap told) (xs.flatMap said) := by
  induction xs with
  | nil => exact says_nil
  | cons x rest ih =>
    have hrest := ih fun y hy => h y (List.mem_cons_of_mem _ hy)
    exact (h x (List.mem_cons_self ..)).append hrest

end Says

def Mentions (d : Dialect) (s : String) (ms : List Mention) : Prop :=
  ∃ ts, Tells d s ts ∧ Says ts ms

def tablesOf : List Mention → List (String × String)
  | .table name :: .label other :: rest => (other, name) :: tablesOf rest
  | .table name :: rest => (name, name) :: tablesOf rest
  | _ :: rest => tablesOf rest
  | [] => []

/-- The table that goes by a name, in the innermost scope that has one; else the table of the name
itself. -/
def tableOf (scopes : List (List (String × String))) (source : String) : String :=
  (scopes.findSome? fun scope => scope.lookup source).getD source

/-- Every table that is mentioned is one of the given tables, and every column one of its columns. A
column without a table is that of the only table of its scope. -/
inductive Mention.Fits (tables : List Table) : List (List (String × String)) → Mention → Prop
  | table {scopes : List (List (String × String))} {t : Table} :
    t ∈ tables → Fits tables scopes (.table t.name)
  | label {scopes : List (List (String × String))} (name : String) :
    Fits tables scopes (.label name)
  | qualified {scopes : List (List (String × String))} {source : String} {t : Table} {c : Column} :
    t ∈ tables → t.name = tableOf scopes source → c ∈ t.columns →
    Fits tables scopes (.column (some source) c.name)
  | bare {source : String} {outer : List (List (String × String))} {t : Table} {c : Column} :
    t ∈ tables → c ∈ t.columns → Fits tables ([(source, t.name)] :: outer) (.column none c.name)
  | scope {scopes : List (List (String × String))} {inner : List Mention} :
    (∀ m ∈ inner, Fits tables (tablesOf inner :: scopes) m) → Fits tables scopes (.scope inner)

section Text

variable {d : Dialect}

theorem mentions_join {separator : String} (hseparator : isBetween separator = true)
    (hno : hasTokens separator [] = true) {α : Type} {text : α → String} {said : α → List Mention}
    {xs : List α} (h : ∀ x ∈ xs, Mentions d (text x) (said x)) :
    Mentions d (Text.join separator (xs.map text)) (xs.flatMap said) := by
  induction xs with
  | nil => exact ⟨[], tells_empty d, says_nil⟩
  | cons x rest ih =>
    obtain ⟨ts, hts, hsays⟩ := h x (List.mem_cons_self ..)
    cases rest with
    | nil =>
      rw [List.flatMap_singleton]
      exact ⟨ts, hts, hsays⟩
    | cons y tail =>
      obtain ⟨us, hus, hrest⟩ := ih fun z hz => h z (List.mem_cons_of_mem _ hz)
      have hboth := (hts.through separator [] hseparator hno).append hus
      rw [List.append_nil] at hboth
      exact ⟨_, hboth, hsays.append hrest⟩

end Text

end Reading

namespace Sql

open Reading

def Mentions (d : Dialect) (x : Sql) (ms : List Mention) : Prop :=
  ∃ ts, Tells d x ts ∧ Says ts ms

variable {d : Dialect} {x : Sql} {ms : List Mention}

theorem Mentions.clean (h : Mentions d x ms) : Clean d x := by
  obtain ⟨ts, hts, -⟩ := h
  exact hts.clean

theorem mentions_text {s : String} (h : Reading.Mentions d s ms) : Mentions d (text s) ms := by
  obtain ⟨ts, hts, hsays⟩ := h
  exact ⟨ts, tells_text hts, hsays⟩

theorem mentions_value (d : Dialect) (p : Parameter) : Mentions d (value p) [] :=
  ⟨[], tells_value d p, says_nil⟩

theorem mentions_join {separator : String} (hseparator : isBetween separator = true)
    (hno : hasTokens separator [] = true) {xs : List Sql} {parts : List (List Mention)}
    (h : List.Forall₂ (Mentions d) xs parts) : Mentions d (join separator xs) parts.flatten := by
  induction h with
  | nil => exact ⟨[], tells_nil d, says_nil⟩
  | @cons x part xs parts hx hrest ih =>
    obtain ⟨ts, hts, hsays⟩ := hx
    cases hrest with
    | nil =>
      rw [List.flatten_singleton]
      exact ⟨ts, hts, hsays⟩
    | cons hy htail =>
      obtain ⟨us, hus, hrest⟩ := ih
      have hboth := (hts.text separator [] hseparator hno).append hus
      rw [List.append_nil] at hboth
      exact ⟨_, hboth, hsays.append hrest⟩

theorem mentions_join_map {separator : String} (hseparator : isBetween separator = true)
    (hno : hasTokens separator [] = true) {α : Type} {sql : α → Sql} {said : α → List Mention}
    {xs : List α} (h : ∀ x ∈ xs, Mentions d (sql x) (said x)) :
    Mentions d (join separator (xs.map sql)) (xs.flatMap said) := by
  have hparts : List.Forall₂ (Mentions d) (xs.map sql) (xs.map said) := by
    rw [List.forall₂_map_left_iff, List.forall₂_map_right_iff]
    exact List.forall₂_same.mpr h
  exact mentions_join hseparator hno hparts

/-- Values with commas between them mention nothing. -/
theorem mentions_values (d : Dialect) (ps : List Parameter) :
    Mentions d (join ", " (ps.map value)) [] := by
  have hjoined : Mentions d (join ", " (ps.map value)) (ps.flatMap fun _ => []) :=
    mentions_join_map rfl rfl fun p _ => mentions_value d p
  rwa [List.flatMap_eq_nil_iff.mpr fun _ _ => rfl] at hjoined

/-- What a statement mentions is what its pieces mention. -/
theorem Mentions.mentions_eq (h : Mentions d x ms) : mentions d (x.statement d).sql = ms := by
  obtain ⟨ts, hts, hsays⟩ := h
  rw [mentions, hts.tokens_eq, hsays]
  simp

example :
    mentions .sqlite
        "SELECT (SELECT \"c\".\"name\" FROM \"User\" AS \"c\") FROM \"Post\" WHERE \"id\" = ?" =
      [.scope [.column (some "c") "name", .table "User", .label "c"], .table "Post",
        .column none "id"] :=
  rfl

end Sql

end EntityStore
