import EntityStore.Proofs.Storage.Columns
import EntityStore.Selection
import EntityStore.Table

/-!
Text literals as the engines read them. A doubled quote stands for one in every dialect, and in
MySQL a backslash changes what the character behind it stands for. Literals are written with doubled
quotes and with backslashes as they are. So they are read as what they were written for in all
dialects but MySQL, and there if no backslash is changed by what follows it.
-/
namespace EntityStore.Reading

/-- What a character behind a backslash stands for in MySQL. In front of the two signs of patterns
the backslash stays. -/
def escaped : Char → List Char
  | '0' => ['\x00']
  | 'b' => ['\x08']
  | 't' => ['\t']
  | 'n' => ['\n']
  | 'r' => ['\r']
  | 'Z' => ['\x1a']
  | '%' => ['\\', '%']
  | '_' => ['\\', '_']
  | c => [c]

def readAhead (said : List Char) (read : Option (List Char × List Char)) :
    Option (List Char × List Char) :=
  read.map fun r => (said ++ r.1, r.2)

def readBody? (d : Dialect) : List Char → Option (List Char × List Char)
  | [] => none
  | '\x27' :: '\x27' :: cs => readAhead ['\x27'] (readBody? d cs)
  | '\x27' :: cs => some ([], cs)
  | '\\' :: c :: cs =>
    if d = .mysql then readAhead (escaped c) (readBody? d cs)
    else readAhead ['\\'] (readBody? d (c :: cs))
  | c :: cs => readAhead [c] (readBody? d cs)

def readLiteral? (d : Dialect) : List Char → Option (List Char × List Char)
  | '\x27' :: cs => readBody? d cs
  | _ => none

/-- Whether every backslash stands right before a character that leaves it as it is. -/
def keepsBackslashes : List Char → Bool
  | [] => true
  | '\\' :: '%' :: cs => keepsBackslashes cs
  | '\\' :: '_' :: cs => keepsBackslashes cs
  | '\\' :: _ => false
  | _ :: cs => keepsBackslashes cs

section Bodies

variable {d : Dialect} {cs x rest : List Char} {c : Char}

theorem readBody?_quote (d : Dialect) (h : rest.head? ≠ some '\x27') :
    readBody? d ('\x27' :: rest) = some ([], rest) := by
  rw [readBody?]
  rintro cs rfl
  exact h rfl

theorem readBody?_doubled (d : Dialect) (cs : List Char) :
    readBody? d ('\x27' :: '\x27' :: cs) = readAhead ['\x27'] (readBody? d cs) := by
  rw [readBody?]

theorem readBody?_ordinary (hquote : c ≠ '\x27') (hslash : c ≠ '\\') :
    readBody? d (c :: cs) = readAhead [c] (readBody? d cs) := by
  rw [readBody?]
  · exact fun _ h => absurd h hquote
  · exact hquote
  · exact fun _ _ h => absurd h hslash

theorem readBody?_escaped (c : Char) (cs : List Char) :
    readBody? .mysql ('\\' :: c :: cs) = readAhead (escaped c) (readBody? .mysql cs) := by
  rw [readBody?, if_pos rfl]

/-- Outside MySQL a backslash is a character like others. -/
theorem readBody?_backslash (hd : d ≠ .mysql) (cs : List Char) :
    readBody? d ('\\' :: cs) = readAhead ['\\'] (readBody? d cs) := by
  cases cs with
  | nil => rfl
  | cons c cs => rw [readBody?, if_neg hd]

theorem readAhead_eq_some {said : List Char} {read : Option (List Char × List Char)}
    (h : readAhead said read = some (x, rest)) : ∃ y, read = some (y, rest) ∧ x = said ++ y := by
  obtain ⟨⟨y, after⟩, hread, heq⟩ := Option.map_eq_some_iff.mp h
  cases heq
  exact ⟨y, hread, rfl⟩

theorem readAhead_iff (said : List Char) {read : Option (List Char × List Char)} {y : List Char} :
    readAhead said read = some (said ++ y, rest) ↔ read = some (y, rest) := by
  constructor
  · intro h
    obtain ⟨z, hread, hz⟩ := readAhead_eq_some h
    rw [hread, List.append_cancel_left hz]
  · rintro rfl
    rfl

def width (cs : List Char) : Nat :=
  cs.length + cs.count '\x27'

theorem width_append (a b : List Char) : width (a ++ b) = width a + width b := by
  simp only [width, List.length_append, List.count_append]
  omega

theorem width_escaped_le (c : Char) : width (escaped c) ≤ 2 := by
  unfold escaped
  split
  case h_9 =>
    have hle := List.count_le_length (a := '\x27') (l := [c])
    simp only [width, List.length_singleton] at hle ⊢
    omega
  all_goals decide

theorem width_readAhead_lt {said : List Char} {read : Option (List Char × List Char)} {n : Nat}
    (h : ∀ y rest, read = some (y, rest) → width y + rest.length < n) :
    ∀ x rest, readAhead said read = some (x, rest) →
      width x + rest.length < n + width said := by
  intro x rest hahead
  obtain ⟨y, hread, rfl⟩ := readAhead_eq_some hahead
  have hlt := h y rest hread
  rw [width_append]
  omega

/-- What is read takes no more characters than stand there. -/
theorem width_lt_of_readBody? (cs : List Char) : ∀ x rest, readBody? d cs = some (x, rest) →
    width x + rest.length < cs.length := by
  fun_induction readBody? d cs with
  | case1 => exact fun _ _ h => nomatch h
  | case2 cs ih => exact width_readAhead_lt ih
  | case3 cs =>
    rintro x _ h
    cases h
    exact Nat.lt_succ_of_le (Nat.le_of_eq (Nat.zero_add _))
  | case4 c cs _ ih =>
    intro x rest h
    have hlt := width_readAhead_lt ih x rest h
    have hle := width_escaped_le c
    simp only [List.length_cons]
    omega
  | case5 c cs _ ih => exact width_readAhead_lt ih
  | case6 c cs _ hquote _ ih =>
    have hwidth : width [c] = 1 := by
      rw [width, List.count_cons_of_ne hquote]
      rfl
    intro x rest h
    have hlt := width_readAhead_lt ih x rest h
    rwa [hwidth] at hlt

end Bodies

section Literals

variable {d : Dialect} {rest : List Char}

theorem length_double (cs : List Char) : (Text.double '\x27' cs).length = width cs := by
  induction cs with
  | nil => rfl
  | cons c cs ih =>
    rw [Text.double]
    split
    · next hc =>
      rw [hc, List.length_cons, List.length_cons, ih]
      simp only [width, List.length_cons, List.count_cons_self]
      omega
    · next hc =>
      rw [List.length_cons, ih]
      simp only [width, List.length_cons, List.count_cons_of_ne hc]
      omega

/-- Outside MySQL every literal is read as what it was written for. -/
theorem readBody?_double (hd : d ≠ .mysql) (hrest : rest.head? ≠ some '\x27') (cs : List Char) :
    readBody? d (Text.double '\x27' cs ++ '\x27' :: rest) = some (cs, rest) := by
  induction cs with
  | nil => exact readBody?_quote d hrest
  | cons c cs ih =>
    rw [Text.double]
    split
    · next hc =>
      rw [hc, List.cons_append, List.cons_append, readBody?_doubled, ih]
      rfl
    · next hc =>
      rw [List.cons_append]
      by_cases hslash : c = '\\'
      · rw [hslash, readBody?_backslash hd, ih]
        rfl
      · rw [readBody?_ordinary hc hslash, ih]
        rfl

theorem double_backslash (cs : List Char) :
    Text.double '\x27' ('\\' :: cs) = '\\' :: Text.double '\x27' cs := rfl

theorem exists_double_cons (c : Char) (cs : List Char) :
    ∃ more, Text.double '\x27' (c :: cs) = c :: more := by
  rw [Text.double]
  split
  · exact ⟨_, rfl⟩
  · exact ⟨_, rfl⟩

/-- Only a few characters leave a backslash before them. -/
theorem eq_of_escaped {c : Char} {cs y : List Char} (h : '\\' :: cs = escaped c ++ y) :
    c = '%' ∨ c = '_' ∨ c = '\\' := by
  unfold escaped at h
  split at h
  case h_7 => exact .inl rfl
  case h_8 => exact .inr (.inl rfl)
  case h_9 => exact .inr (.inr (List.cons.inj h).1.symm)
  all_goals exact absurd (List.cons.inj h).1 (by decide)

/-- A backslash is not read back where it changes what follows. -/
theorem readBody?_changed {tail : List Char} (hpercent : ∀ cs, tail ≠ '%' :: cs)
    (hunderscore : ∀ cs, tail ≠ '_' :: cs) :
    readBody? .mysql (Text.double '\x27' ('\\' :: tail) ++ '\x27' :: rest) ≠
      some ('\\' :: tail, rest) := by
  intro h
  rw [double_backslash] at h
  cases tail with
  | nil =>
    -- the quote that should close the literal is escaped
    have h' : readAhead (escaped '\x27') (readBody? .mysql rest) = some (['\\'], rest) := h
    obtain ⟨y, -, hsaid⟩ := readAhead_eq_some h'
    exact absurd (List.cons.inj hsaid).1 (by decide)
  | cons c cs =>
    obtain ⟨more, hmore⟩ := exists_double_cons c cs
    rw [hmore, List.cons_append, List.cons_append, readBody?_escaped] at h
    obtain ⟨y, hread, hsaid⟩ := readAhead_eq_some h
    rcases eq_of_escaped hsaid with rfl | rfl | rfl
    · exact hpercent _ rfl
    · exact hunderscore _ rfl
    · -- of two backslashes one is read, and what stands behind is too short for the other
      rw [double_backslash] at hmore
      obtain rfl := (List.cons.inj hmore).2
      obtain rfl := (List.cons.inj hsaid).2
      have hlt := width_lt_of_readBody? _ _ _ hread
      rw [List.length_append, length_double] at hlt
      simp only [width, List.length_cons, List.count_cons] at hlt
      omega

/-- In MySQL a literal is read as what it was written for where no backslash changes. -/
theorem readBody?_double_iff (hrest : rest.head? ≠ some '\x27') (cs : List Char) :
    readBody? .mysql (Text.double '\x27' cs ++ '\x27' :: rest) = some (cs, rest) ↔
      keepsBackslashes cs = true := by
  fun_induction keepsBackslashes cs with
  | case1 => exact iff_of_true (readBody?_quote _ hrest) rfl
  | case2 cs ih => exact (readAhead_iff ['\\', '%']).trans ih
  | case3 cs ih => exact (readAhead_iff ['\\', '_']).trans ih
  | case4 tail hpercent hunderscore =>
    exact iff_of_false (readBody?_changed hpercent hunderscore) nofun
  | case5 c cs _ _ hslash ih =>
    refine Iff.trans ?_ ih
    rw [Text.double]
    split
    · next hc =>
      rw [hc, List.cons_append, List.cons_append, readBody?_doubled]
      exact readAhead_iff _
    · next hc =>
      rw [List.cons_append, readBody?_ordinary hc hslash]
      exact readAhead_iff _

theorem toList_literal (s : String) :
    (Dialect.literal s).toList = '\x27' :: (Text.double '\x27' s.toList ++ ['\x27']) :=
  String.toList_ofList

theorem readLiteral?_literal_iff (hrest : rest.head? ≠ some '\x27') (s : String) :
    readLiteral? d ((Dialect.literal s).toList ++ rest) = some (s.toList, rest) ↔
      (d = .mysql → keepsBackslashes s.toList = true) := by
  rw [toList_literal, List.cons_append, List.append_assoc, List.singleton_append, readLiteral?]
  by_cases hd : d = .mysql
  · subst hd
    rw [readBody?_double_iff hrest]
    exact (imp_iff_right rfl).symm
  · exact iff_of_true (readBody?_double hd hrest s.toList) fun h => absurd h hd

end Literals

/--
A text stands in a statement as a literal, at a place that is the same for all texts. There the
engine reads one literal that denotes the text, and goes on behind it, exactly for certain texts.
-/
def Inlines (d : Dialect) (statement : String → String) (kept : String → Prop) : Prop :=
  ∃ before after : String, ∀ s, statement s = before ++ (Dialect.literal s ++ after) ∧
    (readLiteral? d (Dialect.literal s ++ after).toList = some (s.toList, after.toList) ↔ kept s)

def ReadsBack (d : Dialect) (s : String) : Prop :=
  d = .mysql → keepsBackslashes s.toList = true

def createSqlWith (d : Dialect) (f : Field) (generated : Bool) (t : Table)
    (front back : List Column) (default : String) : String :=
  let column := { f with default := some (.str default) }.columnWith? generated d
  { t with columns := front ++ column.toList ++ back }.createSql d

def embeddedSqlWith (d : Dialect) (row : EmbeddedRow) (front back : List (String × Expression))
    (x : Expression) (name : String) : String :=
  { row with pairs := front ++ (name, x) :: back }.sql d

section Statements

variable {d : Dialect} {statement : String → String}

theorem inlines_of_eq {after : String} (hafter : after.toList.head? ≠ some '\x27')
    (before : String) (h : ∀ s, statement s = before ++ (Dialect.literal s ++ after)) :
    Inlines d statement (ReadsBack d) := by
  refine ⟨before, after, fun s => ⟨h s, ?_⟩⟩
  rw [String.toList_append]
  exact readLiteral?_literal_iff hafter s

/-- A part stands in joined texts between texts that are the same for all parts. -/
theorem exists_join_eq (separator : String) (front back : List String) :
    ∃ before after : String, (after = "" ∨ ∃ more, after = separator ++ more) ∧
      ∀ part, Text.join separator (front ++ part :: back) = before ++ (part ++ after) := by
  induction front with
  | nil =>
    cases back with
    | nil => exact ⟨"", "", .inl rfl, fun part => by simp [Text.join]⟩
    | cons next back =>
      refine ⟨"", separator ++ Text.join separator (next :: back), .inr ⟨_, rfl⟩, fun part => ?_⟩
      simp [Text.join, String.append_assoc]
  | cons first front ih =>
    obtain ⟨before, after, hafter, hjoin⟩ := ih
    refine ⟨first ++ (separator ++ before), after, hafter, fun part => ?_⟩
    have hsplit : Text.join separator (first :: (front ++ part :: back)) =
        first ++ separator ++ Text.join separator (front ++ part :: back) := by
      cases front <;> rfl
    rw [List.cons_append, hsplit, hjoin]
    simp only [String.append_assoc]

theorem head?_append_ne {a b : String} (ha : a.toList.head? ≠ some '\x27')
    (hb : b.toList.head? ≠ some '\x27') : (a ++ b).toList.head? ≠ some '\x27' := by
  rw [String.toList_append]
  cases h : a.toList with
  | nil => exact hb
  | cons c cs =>
    rw [h] at ha
    exact ha

theorem head?_ne_of_front {a : String} {c : Char} (ha : a.toList.head? = some c)
    (hc : c ≠ '\x27') (b : String) : (a ++ b).toList.head? ≠ some '\x27' := by
  rw [String.toList_append, List.head?_append, ha]
  exact fun h => hc (Option.some.inj h)

/-- The definition of a column is followed by another line or by the end of the statement. -/
theorem exists_createSql_eq (d : Dialect) (t : Table) (front back : List Column) :
    ∃ before after : String, after.toList.head? ≠ some '\x27' ∧ ∀ c : Column,
      { t with columns := front ++ c :: back }.createSql d = before ++ (c.sql d ++ after) := by
  obtain ⟨before, after, hafter, hjoin⟩ := exists_join_eq ",\n  " (front.map fun c => c.sql d)
    (back.map (fun c => c.sql d) ++ ["PRIMARY KEY (" ++ d.quote t.key ++ ")"])
  refine ⟨"CREATE TABLE " ++ d.quote t.name ++ " (\n  " ++ before,
    after ++ ("\n)" ++ d.tableOptions), head?_append_ne ?_ ?_, fun c => ?_⟩
  · rcases hafter with rfl | ⟨more, rfl⟩
    · exact nofun
    · exact head?_ne_of_front rfl (by decide) more
  · exact head?_ne_of_front rfl (by decide) _
  · have hlines : { t with columns := front ++ c :: back }.lines d =
        front.map (fun c => c.sql d) ++ c.sql d ::
          (back.map (fun c => c.sql d) ++ ["PRIMARY KEY (" ++ d.quote t.key ++ ")"]) := by
      simp [Table.lines]
    unfold Table.createSql
    simp only [hlines, hjoin]
    simp only [String.append_assoc]

theorem sql_of_default {c : Column} {s : String} (h : c.default = some s) (d : Dialect) :
    c.sql d = d.quote c.name ++ " " ++ c.type.sql ++ (if c.notNull then " NOT NULL" else "") ++
      " DEFAULT " ++ (s ++ ((if c.unique then " UNIQUE" else "") ++
        (if c.generated then Column.generatedText d else ""))) := by
  rw [Column.sql, h]
  simp only [String.append_assoc]

/-- Of a field's column only the default depends on the default. -/
theorem exists_columnWith?_default {f : Field} (hcolumn : f.hasColumn = true)
    (htype : f.type ≠ .boolean) (d : Dialect) (generated : Bool) : ∃ c : Column, ∀ s : String,
      { f with default := some (.str s) }.columnWith? generated d =
        some { c with default := some (Dialect.literal s) } := by
  obtain ⟨c, hc, -⟩ := Field.exists_columnWith? hcolumn generated d
  refine ⟨c, fun s => ?_⟩
  obtain ⟨type, htypes, rfl⟩ := Option.map_eq_some_iff.mp hc
  have hliteral : f.type.defaultLiteral? (.str s) = some (Dialect.literal s) := by
    rw [FieldType.defaultLiteral?, if_neg htype]
  have hsame : { f with default := some (.str s) }.columnType? d = some type := htypes
  rw [Field.columnWith?, hsame, Option.map_some, Field.defaultLiteral?, Option.bind_some, hliteral]

/-- The default of a field, in the definition of its column. -/
theorem inlines_default {f : Field} (hcolumn : f.hasColumn = true) (htype : f.type ≠ .boolean)
    (d : Dialect) (generated : Bool) (t : Table) (front back : List Column) :
    Inlines d (createSqlWith d f generated t front back) (ReadsBack d) := by
  obtain ⟨before, after, hafter, hsql⟩ := exists_createSql_eq d t front back
  obtain ⟨c, hc⟩ := exists_columnWith?_default hcolumn htype d generated
  have hfollows : ((if c.unique then " UNIQUE" else "") ++
      (if c.generated then Column.generatedText d else "") ++ after).toList.head? ≠
        some '\x27' := by
    refine head?_append_ne (head?_append_ne ?_ ?_) hafter
    · cases c.unique <;> decide
    · cases c.generated <;> cases d <;> decide
  refine inlines_of_eq hfollows (before ++ (d.quote c.name ++ " " ++ c.type.sql ++
    (if c.notNull then " NOT NULL" else "") ++ " DEFAULT ")) fun s => ?_
  rw [createSqlWith, hc, Option.toList_some, List.append_assoc, List.singleton_append, hsql,
    sql_of_default rfl]
  simp only [String.append_assoc]

/-- The key of a JSON object is followed by its value. -/
theorem exists_jsonObject_eq (d : Dialect) (front back : List (String × String)) (value : String) :
    ∃ before after : String, ∀ key, d.jsonObject (front ++ (key, value) :: back) =
      before ++ (Dialect.literal key ++ (", CAST(" ++ after)) := by
  obtain ⟨before, after, -, hjoin⟩ := exists_join_eq ", " (front.map d.jsonPair)
    (back.map d.jsonPair)
  obtain ⟨opening, closing, hobject⟩ : ∃ opening closing : String, ∀ pairs,
      d.jsonObject pairs = opening ++ Text.join ", " (pairs.map d.jsonPair) ++ closing := by
    cases d with
    | mysql => exact ⟨"JSON_OBJECT(", ")", fun _ => rfl⟩
    | postgres => exact ⟨"CAST(json_build_object(", ") AS TEXT)", fun _ => rfl⟩
    | sqlite => exact ⟨"json_object(", ")", fun _ => rfl⟩
  refine ⟨opening ++ before, value ++ " AS " ++ d.textType ++ ")" ++ after ++ closing,
    fun key => ?_⟩
  rw [hobject, List.map_append, List.map_cons, hjoin, Dialect.jsonPair]
  simp only [String.append_assoc]

/-- The names of sub-fields, in the subselect that reads a related row along. -/
theorem inlines_name (d : Dialect) (row : EmbeddedRow) (front back : List (String × Expression))
    (x : Expression) : Inlines d (embeddedSqlWith d row front back x) (ReadsBack d) := by
  obtain ⟨before, after, hobject⟩ := exists_jsonObject_eq d (front.map fun p => (p.1, p.2.sql d))
    (back.map fun p => (p.1, p.2.sql d)) (x.sql d)
  obtain ⟨closing, hsql⟩ : ∃ closing : String, ∀ pairs, { row with pairs }.sql d =
      "(SELECT " ++ (d.jsonObject (pairs.map fun p => (p.1, p.2.sql d)) ++ closing) := by
    refine ⟨" FROM " ++ (d.quote row.table ++ (" AS " ++ (d.quote EmbeddedRow.rowAlias ++
      (" WHERE " ++ (d.qualified EmbeddedRow.rowAlias row.key ++ (" = " ++
        (d.qualified row.source row.field ++ (" LIMIT 1) AS " ++ d.quote row.field)))))))),
      fun pairs => ?_⟩
    unfold EmbeddedRow.sql
    dsimp only
    simp only [String.append_assoc]
  have hfollows : (", CAST(" ++ (after ++ closing)).toList.head? ≠ some '\x27' :=
    head?_ne_of_front (a := ", CAST(") (c := ',') (by simp) (by decide) _
  refine inlines_of_eq hfollows ("(SELECT " ++ before) fun name => ?_
  rw [embeddedSqlWith, hsql, List.map_append, List.map_cons, hobject]
  simp only [String.append_assoc]

end Statements

/--
Every text that is the default of a field's column, and every name of a sub-field, stands as one
literal in the statement made of it. It is read as the text exactly if, in MySQL, each backslash of
it stands right before a character that leaves the backslash as it is.
-/
theorem inlined_text_read_iff {f : Field} (hcolumn : f.hasColumn = true)
    (htype : f.type ≠ .boolean) (d : Dialect) (generated : Bool) (t : Table)
    (front back : List Column) (row : EmbeddedRow) (pairs more : List (String × Expression))
    (x : Expression) :
    Inlines d (createSqlWith d f generated t front back) (ReadsBack d) ∧
      Inlines d (embeddedSqlWith d row pairs more x) (ReadsBack d) :=
  ⟨inlines_default hcolumn htype d generated t front back, inlines_name d row pairs more x⟩

end EntityStore.Reading

namespace EntityStore.Sample

def path : Field := { name := "path", type := .string }

def files : Table := { name := "File", columns := [], key := "id" }

def fileRow : EmbeddedRow :=
  { table := "File", key := "id", pairs := [], source := "Post", field := "file" }

end EntityStore.Sample

namespace EntityStore.Reading

open Sample in
theorem inlined_text_read_of_path :
    Inlines .mysql (createSqlWith .mysql path false files [] []) (ReadsBack .mysql) ∧
      ReadsBack .mysql "it's 5\\%" ∧ ¬ ReadsBack .mysql "C:\\" := by
  refine ⟨?_, fun _ => by decide, fun h => absurd (h rfl) (by decide)⟩
  exact (inlined_text_read_iff (f := path) rfl (by decide) .mysql false files [] [] fileRow [] []
    (.column "c" "path")).1

open Sample in
/-- A backslash at the end keeps a literal open, and one before a quote ends it there. -/
theorem literal_left_open :
    ({ path with default := some (.str "C:\\") }.column? .mysql).map (Column.sql · .mysql) =
      some (Dialect.mysql.quote "path" ++ " VARCHAR(255) DEFAULT " ++ Dialect.literal "C:\\") ∧
    readLiteral? .mysql (Dialect.literal "C:\\").toList = none ∧
    Dialect.mysql.jsonPair ("\\' FROM", "x") =
      Dialect.literal "\\' FROM" ++ ", CAST(x AS CHAR)" ∧
    readLiteral? .mysql (Dialect.literal "\\' FROM").toList =
      some (['\x27'], [' ', 'F', 'R', 'O', 'M', '\x27']) := by
  refine ⟨by decide, by decide, by decide, by decide⟩

end EntityStore.Reading
