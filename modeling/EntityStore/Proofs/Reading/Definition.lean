import EntityStore.Proofs.Reading.Table
import Mathlib.Data.List.Forall2

/-!
What a statement that makes a table defines: its columns, and the columns that it makes a key. The
definitions stand between parentheses, with commas between them; one that begins with a name defines
a column. The statement for a table defines the columns of the table, in their order, and has one
key clause, which names the key of the table.
-/
namespace EntityStore

namespace Reading

structure DefinitionReader where
  depth : Nat := 0
  current : List Lexeme := []
  done : List (List Lexeme) := []

/-- Commas part definitions outside of parentheses inside them, and the parenthesis that closes the
outermost one ends the last of them. -/
def DefinitionReader.step : DefinitionReader → Lexeme → DefinitionReader
  | ⟨0, current, done⟩, l => if l = .sign '(' then ⟨1, [], done⟩ else ⟨0, current, done⟩
  | ⟨1, current, done⟩, l =>
    if l = .sign ',' then ⟨1, [], done ++ [current]⟩
    else if l = .sign ')' then ⟨0, [], done ++ [current]⟩
    else if l = .sign '(' then ⟨2, current ++ [l], done⟩
    else ⟨1, current ++ [l], done⟩
  | ⟨depth + 2, current, done⟩, l =>
    if l = .sign ')' then ⟨depth + 1, current ++ [l], done⟩
    else if l = .sign '(' then ⟨depth + 3, current ++ [l], done⟩
    else ⟨depth + 2, current ++ [l], done⟩

def definitions (d : Dialect) (s : String) : List (List Lexeme) :=
  ((lexemes d s).foldl DefinitionReader.step {}).done

def columnOf? : List Lexeme → Option String
  | .name n :: _ => some n
  | _ => none

def namesIn (ls : List Lexeme) : List String :=
  ls.filterMap fun
    | .name n => some n
    | _ => none

/-- The key that a definition declares, if it has the word for it: the columns that it names, be it
a clause of its own or the definition of a column. -/
def keyOf? (ls : List Lexeme) : Option (List String) :=
  if .word "PRIMARY" ∈ ls then some (namesIn ls) else none

def definedColumns (d : Dialect) (s : String) : List String :=
  (definitions d s).filterMap columnOf?

def definedKeys (d : Dialect) (s : String) : List (List String) :=
  (definitions d s).filterMap keyOf?

def Inside (ls : List Lexeme) : Prop :=
  ∀ current done, ls.foldl DefinitionReader.step ⟨1, current, done⟩ = ⟨1, current ++ ls, done⟩

/-- The lexemes may stand behind the name of a column, and make it no key. -/
structure Trails (ls : List Lexeme) : Prop where
  inside : Inside ls
  noKey : .word "PRIMARY" ∉ ls

def TextTrails (d : Dialect) (s : String) : Prop :=
  ∃ ls, Reads d s ls ∧ Trails ls

def Defines (d : Dialect) (s name : String) : Prop :=
  ∃ behind, Reads d s (.name name :: behind) ∧ Trails behind

def isPlain : Lexeme → Bool
  | .sign _ => false
  | .word w => w != "PRIMARY"
  | .name _ | .literal _ | .unclosed => true

def isTrailing (s : String) : Bool :=
  [Dialect.mysql, .postgres, .sqlite].all fun d =>
    !(feed d .between s.toList).2.isOpen && (lexemes d s).all isPlain

section Lexemes

variable {ls ms : List Lexeme}

theorem inside_nil : Inside [] :=
  fun _ _ => by simp

theorem Inside.append (hls : Inside ls) (hms : Inside ms) : Inside (ls ++ ms) := by
  intro current done
  rw [List.foldl_append, hls, hms, List.append_assoc]

theorem inside_of_ne_sign {l : Lexeme} (h : ∀ c, l ≠ .sign c) : Inside [l] := by
  intro current done
  simp [DefinitionReader.step, h]

theorem inside_of_isPlain (h : ∀ l ∈ ls, isPlain l = true) : Inside ls := by
  induction ls with
  | nil => exact inside_nil
  | cons l rest ih =>
    obtain ⟨hl, hrest⟩ := List.forall_mem_cons.mp h
    have hsign : ∀ c, l ≠ .sign c := by
      rintro c rfl
      cases hl
    exact (inside_of_ne_sign hsign).append (ih hrest)

/-- Parentheses around one word, or around a word and a number behind a comma. -/
theorem inside_parentheses (w : String) : Inside [.sign '(', .word w, .sign ')'] ∧
    Inside [.sign '(', .word w, .sign ',', .word "10", .sign ')'] := by
  constructor <;> intro current done <;> simp [DefinitionReader.step]

theorem inside_keyClause (key : String) :
    Inside [.word "PRIMARY", .word "KEY", .sign '(', .name key, .sign ')'] := by
  intro current done
  simp [DefinitionReader.step]

theorem trails_of_isPlain (h : ∀ l ∈ ls, isPlain l = true) : Trails ls := by
  refine ⟨inside_of_isPlain h, fun hmem => ?_⟩
  have hkey := h _ hmem
  simp [isPlain] at hkey

theorem Trails.append (hls : Trails ls) (hms : Trails ms) : Trails (ls ++ ms) := by
  refine ⟨hls.inside.append hms.inside, fun hmem => ?_⟩
  rcases List.mem_append.mp hmem with h | h
  · exact hls.noKey h
  · exact hms.noKey h

/-- What stands between the outermost parentheses is taken apart at the commas. -/
theorem foldl_definitions {items : List (List Lexeme)} (hne : items ≠ [])
    (h : ∀ ls ∈ items, Inside ls) (done : List (List Lexeme)) :
    ([Lexeme.sign ','].intercalate items ++ [Lexeme.sign ')']).foldl DefinitionReader.step
      ⟨1, [], done⟩ = ⟨0, [], done ++ items⟩ := by
  induction items generalizing done with
  | nil => exact absurd rfl hne
  | cons ls rest ih =>
    obtain ⟨hls, hrest⟩ := List.forall_mem_cons.mp h
    cases rest with
    | nil =>
      rw [List.intercalate_singleton, List.foldl_append, hls]
      simp [DefinitionReader.step]
    | cons next others =>
      have hnext := ih (by simp) hrest (done ++ [ls])
      rw [List.intercalate_cons_cons, List.append_assoc, List.append_assoc, List.foldl_append, hls,
        List.foldl_append]
      simpa [DefinitionReader.step] using hnext

/-- Words outside of all parentheses define nothing. -/
theorem foldl_words (h : ∀ l ∈ ls, ∃ w, l = .word w) (done : List (List Lexeme)) :
    ls.foldl DefinitionReader.step ⟨0, [], done⟩ = ⟨0, [], done⟩ := by
  induction ls with
  | nil => rfl
  | cons l rest ih =>
    obtain ⟨⟨w, rfl⟩, hrest⟩ := List.forall_mem_cons.mp h
    exact ih hrest

end Lexemes

section Text

variable {d : Dialect} {s t : String}

/-- A text that is closed at its end reads as its lexemes. -/
theorem reads_lexemes (h : (feed d .between s.toList).2.isOpen = false) :
    Reads d s (lexemes d s) :=
  reads_of_feed rfl h

theorem textTrails_of_isTrailing (d : Dialect) (s : String) (h : isTrailing s = true) :
    TextTrails d s := by
  have hd := List.all_eq_true.mp h d (by cases d <;> decide)
  simp only [Bool.and_eq_true, Bool.not_eq_true', List.all_eq_true] at hd
  exact ⟨_, reads_lexemes hd.1, trails_of_isPlain hd.2⟩

theorem Defines.append {name : String} (hs : Defines d s name) (ht : TextTrails d t)
    (hcut : cuts t.toList = true) : Defines d (s ++ t) name := by
  obtain ⟨ls, hls, hlsTrails⟩ := hs
  obtain ⟨ms, hms, hmsTrails⟩ := ht
  exact ⟨_, hls.append hcut hms, hlsTrails.append hmsTrails⟩

theorem textTrails_literal (d : Dialect) (s : String) : TextTrails d (Dialect.literal s) :=
  ⟨_, reads_literal d s, trails_of_isPlain (by simp [isPlain])⟩

/-- Texts with a separator between neighbours read as their lexemes do, with its lexemes between
them. -/
theorem reads_separated {separator : String} {between : List Lexeme}
    (hcut : startsCut separator.toList = true) (hbetween : ReadsThrough d separator between)
    {texts : List String} {items : List (List Lexeme)}
    (h : List.Forall₂ (fun s ls => Reads d s ls) texts items) :
    Reads d (Text.join separator texts) (between.intercalate items) := by
  induction h with
  | nil =>
    intro rest _
    simp [Text.join]
  | @cons s ls texts items hs hrest ih =>
    cases hrest with
    | nil => simpa [Text.join] using hs
    | cons hnext hothers =>
      rw [List.intercalate_cons_cons]
      exact (hs.appendThrough hcut hbetween).append ih

end Text

end Reading

open Reading

section Columns

variable {d : Dialect} {c : Column}

/-- A type with numbers in parentheses. -/
private theorem textTrails_numbered (d : Dialect) {opening closing w : String} {ls : List Lexeme}
    (n : Nat) (hopening : ReadsThrough d opening [.word w, .sign '('])
    (hclosing : Reads d closing ls) (hcut : cuts closing.toList = true) (hw : w ≠ "PRIMARY")
    (hinside : Inside ([.sign '(', .word (toString n)] ++ ls))
    (hkey : .word "PRIMARY" ∉ ls) : TextTrails d (opening ++ toString n ++ closing) := by
  have hn : toString n ≠ "PRIMARY" := by
    intro heq
    have hp : 'P' ∈ (toString n).toList := heq ▸ (by decide)
    cases Text.isDigit_of_mem_toString hp
  refine ⟨_, (hopening.append (reads_numeral d n)).append hcut hclosing, ?_, ?_⟩
  · exact (inside_of_ne_sign (l := .word w) (by simp)).append hinside
  · simp only [List.mem_append, List.mem_cons, Lexeme.word.injEq, reduceCtorEq, List.not_mem_nil,
      or_false, hkey, not_or]
    exact ⟨hw.symm, hn.symm⟩

theorem textTrails_columnType (d : Dialect) (t : ColumnType) : TextTrails d t.sql := by
  have hclosing : Reads d ")" [.sign ')'] :=
    (readsThrough_of_feed (by cases d <;> decide)).reads
  have hdecimal : Reads d ",10)" [.sign ',', .word "10", .sign ')'] :=
    (readsThrough_of_feed (by cases d <;> decide)).reads
  cases t with
  | varchar n =>
    have hopening : ReadsThrough d "VARCHAR(" [.word "VARCHAR", .sign '('] :=
      readsThrough_of_feed (by cases d <;> decide)
    exact textTrails_numbered d n hopening hclosing rfl (by decide)
      (inside_parentheses (toString n)).1 (by simp)
  | decimal n =>
    have hopening : ReadsThrough d "DECIMAL(" [.word "DECIMAL", .sign '('] :=
      readsThrough_of_feed (by cases d <;> decide)
    exact textTrails_numbered d n hopening hdecimal rfl (by decide)
      (inside_parentheses (toString n)).2 (by simp)
  | int n =>
    have hopening : ReadsThrough d "INT(" [.word "INT", .sign '('] :=
      readsThrough_of_feed (by cases d <;> decide)
    exact textTrails_numbered d n hopening hclosing rfl (by decide)
      (inside_parentheses (toString n)).1 (by simp)
  | _ => exact textTrails_of_isTrailing d _ rfl

private theorem textTrails_optional (d : Dialect) (present : Bool) {s : String}
    (hs : isTrailing s = true) (hcut : cuts s.toList = true) :
    TextTrails d (if present then s else "") ∧
      cuts (if present then s else "").toList = true := by
  cases present with
  | true => exact ⟨textTrails_of_isTrailing d s hs, hcut⟩
  | false => exact ⟨textTrails_of_isTrailing d "" rfl, rfl⟩

/-- The default of a column of a field is a literal, or one of two words. -/
theorem Column.OfField.textTrails_default (h : c.OfField d) {literal : String}
    (hliteral : c.default = some literal) : TextTrails d literal := by
  obtain ⟨f, generated, hf⟩ := h
  obtain ⟨type, -, rfl⟩ := Option.map_eq_some_iff.mp hf
  obtain ⟨value, -, hvalue⟩ := Option.bind_eq_some_iff.mp hliteral
  unfold FieldType.defaultLiteral? at hvalue
  split at hvalue
  · cases hvalue
  · split at hvalue
    · cases hvalue
      split <;> exact textTrails_of_isTrailing d _ rfl
    · cases hvalue
      exact textTrails_literal d _

private theorem textTrails_defaultText {default : Option String}
    (h : ∀ literal, default = some literal → TextTrails d literal) :
    TextTrails d (defaultText default) ∧ cuts (defaultText default).toList = true := by
  cases default with
  | none => exact ⟨textTrails_of_isTrailing d "" rfl, rfl⟩
  | some literal =>
    obtain ⟨ls, hls, htrails⟩ := h literal rfl
    have hword : ReadsThrough d " DEFAULT " [.word "DEFAULT"] :=
      readsThrough_of_feed (by cases d <;> decide)
    have hplain : Trails [.word "DEFAULT"] := trails_of_isPlain (by simp [isPlain])
    exact ⟨⟨_, hword.append hls, hplain.append htrails⟩, cuts_text _ rfl⟩

/-- The definition of a column begins with its name. -/
theorem Column.OfField.defines_sql (h : c.OfField d) : Defines d (c.sql d) c.name := by
  have hgeneratedText : isTrailing (Column.generatedText d) = true := by cases d <;> decide
  have hgeneratedCut : cuts (Column.generatedText d).toList = true := by cases d <;> decide
  have hnull := textTrails_optional d c.notNull (s := " NOT NULL") rfl rfl
  have hdefault := textTrails_defaultText fun _ hliteral => h.textTrails_default hliteral
  have hunique := textTrails_optional d c.unique (s := " UNIQUE") rfl rfl
  have hgenerated := textTrails_optional d c.generated hgeneratedText hgeneratedCut
  have hblank : ReadsThrough d " " [] := readsThrough_of_feed (by cases d <;> decide)
  have htype : Defines d (d.quote c.name ++ " " ++ c.type.sql) c.name := by
    obtain ⟨ls, hls, htrails⟩ := textTrails_columnType d c.type
    exact ⟨ls, ((reads_quote d c.name).appendThrough rfl hblank).append hls, htrails⟩
  unfold Column.sql
  refine Defines.append ?_ hgenerated.1 hgenerated.2
  refine Defines.append ?_ hunique.1 hunique.2
  refine Defines.append ?_ hdefault.1 hdefault.2
  exact htype.append hnull.1 hnull.2

end Columns

section Tables

variable {d : Dialect} {t : Table}

private def keyClause (key : String) : List Lexeme :=
  [.word "PRIMARY", .word "KEY", .sign '(', .name key, .sign ')']

private theorem reads_keyClause (d : Dialect) (key : String) :
    Reads d ("PRIMARY KEY (" ++ d.quote key ++ ")") (keyClause key) := by
  have hopening : ReadsThrough d "PRIMARY KEY (" [.word "PRIMARY", .word "KEY", .sign '('] :=
    readsThrough_of_feed (by cases d <;> decide)
  have hclosing : Reads d ")" [.sign ')'] :=
    (readsThrough_of_feed (by cases d <;> decide)).reads
  exact (hopening.append (reads_quote d key)).append rfl hclosing

private theorem columnOf?_keyClause (key : String) : columnOf? (keyClause key) = none :=
  rfl

private theorem keyOf?_keyClause (key : String) : keyOf? (keyClause key) = some [key] :=
  if_pos (List.mem_cons_self ..)

private def DefinitionOf (d : Dialect) (c : Column) (ls : List Lexeme) : Prop :=
  Reads d (c.sql d) ls ∧ ∃ behind, ls = .name c.name :: behind ∧ Trails behind

private theorem DefinitionOf.inside {c : Column} {ls : List Lexeme} (h : DefinitionOf d c ls) :
    Inside ls := by
  obtain ⟨-, behind, rfl, htrails⟩ := h
  exact (inside_of_ne_sign (l := .name c.name) (by simp)).append htrails.inside

private theorem inside_of_definitions {columns : List Column} {items : List (List Lexeme)}
    (h : List.Forall₂ (DefinitionOf d) columns items) : ∀ ls ∈ items, Inside ls := by
  induction h with
  | nil => simp
  | cons hfirst _ ih => exact List.forall_mem_cons.mpr ⟨hfirst.inside, ih⟩

private theorem columns_of_definitions {columns : List Column} {items : List (List Lexeme)}
    (h : List.Forall₂ (DefinitionOf d) columns items) :
    items.filterMap columnOf? = columns.map Column.name ∧ items.filterMap keyOf? = [] := by
  induction h with
  | nil => exact ⟨rfl, rfl⟩
  | cons hfirst hrest ih =>
    obtain ⟨-, behind, rfl, htrails⟩ := hfirst
    obtain ⟨hcolumns, hkeys⟩ := ih
    constructor
    · rw [List.filterMap_cons, columnOf?, List.map_cons, hcolumns]
    · have hnone : ∀ n, keyOf? (.name n :: behind) = none := by
        intro n
        refine if_neg fun hmem => ?_
        cases hmem with
        | tail _ hbehind => exact htrails.noKey hbehind
      rw [List.filterMap_cons, hnone, hkeys]

private theorem exists_definitions {columns : List Column} (h : ∀ c ∈ columns, c.OfField d) :
    ∃ items, List.Forall₂ (DefinitionOf d) columns items := by
  induction columns with
  | nil => exact ⟨[], .nil⟩
  | cons c rest ih =>
    obtain ⟨hc, hrest⟩ := List.forall_mem_cons.mp h
    obtain ⟨behind, hreads, htrails⟩ := hc.defines_sql
    obtain ⟨items, hitems⟩ := ih hrest
    exact ⟨_, .cons ⟨hreads, behind, rfl, htrails⟩ hitems⟩

/-- The lexemes of the statement are its opening, the definitions and what follows them. -/
private theorem reads_createSql {items : List (List Lexeme)}
    (h : List.Forall₂ (DefinitionOf d) t.columns items) :
    ∃ options, (∀ l ∈ options, ∃ w, l = .word w) ∧
      Reads d (t.createSql d) ([.word "CREATE", .word "TABLE", .name t.name, .sign '('] ++
        ([Lexeme.sign ','].intercalate (items ++ [keyClause t.key]) ++ [.sign ')']) ++
          options) := by
  have hlines : List.Forall₂ (fun s ls => Reads d s ls) (t.lines d)
      (items ++ [keyClause t.key]) := by
    refine List.rel_append ?_ (.cons (reads_keyClause d t.key) .nil)
    rw [List.forall₂_map_left_iff]
    exact h.imp fun _ _ hdefinition => hdefinition.1
  have hopening : ReadsThrough d "CREATE TABLE " [.word "CREATE", .word "TABLE"] :=
    readsThrough_of_feed (by cases d <;> decide)
  have hparenthesis : ReadsThrough d " (\n  " [.sign '('] :=
    readsThrough_of_feed (by cases d <;> decide)
  have hcomma : ReadsThrough d ",\n  " [.sign ','] :=
    readsThrough_of_feed (by cases d <;> decide)
  have hclosing : ReadsThrough d "\n)" [.sign ')'] :=
    readsThrough_of_feed (by cases d <;> decide)
  have hoptions : ∃ options, (∀ l ∈ options, ∃ w, l = .word w) ∧
      Reads d d.tableOptions options := by
    cases d with
    | mysql =>
      have hengine : lexemes .mysql Dialect.mysql.tableOptions = [.word "ENGINE=InnoDB"] := by
        decide
      exact ⟨[.word "ENGINE=InnoDB"], by simp, hengine ▸ reads_lexemes (by decide)⟩
    | postgres | sqlite => exact ⟨[], by simp, fun _ _ => rfl⟩
  obtain ⟨options, hwords, hoptions⟩ := hoptions
  have hname := (hopening.append (reads_quote d t.name)).appendThrough rfl hparenthesis
  have hbody := (hname.append (reads_separated rfl hcomma hlines)).appendThrough rfl hclosing
  refine ⟨options, hwords, ?_⟩
  unfold Table.createSql
  simpa using hbody.append hoptions

/-- The statement for a table whose columns are those of fields defines them, and declares one key,
that of the table. -/
theorem Table.definitions_createSql (h : ∀ c ∈ t.columns, c.OfField d) :
    definedColumns d (t.createSql d) = t.columns.map Column.name ∧
      definedKeys d (t.createSql d) = [[t.key]] := by
  obtain ⟨items, hitems⟩ := exists_definitions h
  obtain ⟨options, hwords, hreads⟩ := reads_createSql hitems
  have hdefinitions : definitions d (t.createSql d) = items ++ [keyClause t.key] := by
    have hinside : ∀ ls ∈ items ++ [keyClause t.key], Inside ls := by
      refine List.forall_mem_append.mpr ⟨?_, List.forall_mem_singleton.mpr (inside_keyClause t.key)⟩
      exact inside_of_definitions hitems
    have hopening : [Lexeme.word "CREATE", .word "TABLE", .name t.name, .sign '('].foldl
        DefinitionReader.step {} = ⟨1, [], []⟩ := by
      simp [DefinitionReader.step]
    rw [definitions, hreads.lexemes_eq, List.foldl_append, List.foldl_append, hopening,
      foldl_definitions (by simp) hinside, foldl_words hwords, List.nil_append]
  obtain ⟨hcolumns, hkeys⟩ := columns_of_definitions hitems
  constructor
  · rw [definedColumns, hdefinitions, List.filterMap_append, hcolumns]
    simp [columnOf?_keyClause]
  · rw [definedKeys, hdefinitions, List.filterMap_append, hkeys]
    simp [keyOf?_keyClause]

end Tables

end EntityStore
