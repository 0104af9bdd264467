import EntityStore.Command
import EntityStore.Proofs.Reading.Selection
import EntityStore.Proofs.Reading.Table

/-!
The tables and columns that the statements of commands mention, whatever names and values they are
made for: names stand in marks and values are bound.
-/
namespace EntityStore

open Reading

def bareMentions (before : List String) (table : String) (behind : List String) : List Mention :=
  before.map (.column none) ++ .table table :: behind.map (.column none)

def RowMatch.column : RowMatch → String
  | equals column _ => column
  | among column _ => column

def Assignment.columns (a : Assignment) : List String :=
  match a.assigned with
  | .increased _ => [a.column, a.column]
  | .value _ | .zero => [a.column]

def returnedColumns (returning : Option String) : Dialect → List String
  | .mysql => []
  | .postgres | .sqlite => returning.toList

def LinkSelection.mentions (s : LinkSelection) : List Mention :=
  (s.columns.flatMap fun c => c.1.mentions ++ [.label c.2]) ++
    [.column (some linkAlias) s.join.owner, .label ownerName,
      .column (some linkAlias) s.join.related, .label relatedName,
      .table s.join.name, .label linkAlias, .table s.related, .label relatedAlias,
      .column (some relatedAlias) s.relatedKey, .column (some linkAlias) s.join.related,
      .column (some linkAlias) s.join.owner, .column (some linkAlias) "id"]

def Command.mentions (d : Dialect) : Command → List Mention
  | drop _ | create _ | raw _ => []
  | select s => s.selectMentions
  | count s => s.countMentions
  | lookup columns table rows => bareMentions columns table (rows.map RowMatch.column)
  | elements table _ =>
    bareMentions [Schema.listOwner, Schema.listValue] table [Schema.listOwner, "id"]
  | links s => s.mentions
  | insertDefaults table returning => bareMentions [] table (returnedColumns (some returning) d)
  | insert table columns _ returning =>
    bareMentions [] table (columns ++ returnedColumns returning d)
  | update table assignments rows =>
    bareMentions [] table (assignments.flatMap Assignment.columns ++ rows.map RowMatch.column)
  | delete table rows => bareMentions [] table (rows.map RowMatch.column)

section Parts

variable (d : Dialect)

theorem mentions_quotedNames (names : List String) :
    Mentions d (Command.quotedNames d names) (names.map (.column none)) := by
  have hnames : Mentions d (Command.quotedNames d names)
      (names.flatMap fun name => [.column none name]) :=
    mentions_join rfl rfl fun name _ => ⟨_, tells_quote d name, says_name name⟩
  rwa [← List.map_eq_flatMap] at hnames

theorem mentions_rowMatch (m : RowMatch) : Sql.Mentions d (m.sql d) [.column none m.column] := by
  cases m with
  | equals column p =>
    have hcolumn := (tells_quote d column).through " = " [] rfl rfl
    exact ⟨_, (Sql.tellsThrough_text hcolumn).append (Sql.tells_value d p), says_name column⟩
  | among column ps =>
    obtain ⟨ts, hts, hsays⟩ := Sql.mentions_values d ps
    have hcolumn := (tells_quote d column).through " IN (" [.opening] rfl rfl
    have hall := ((Sql.tellsThrough_text hcolumn).append hts).text ")" [.closing] rfl rfl
    refine ⟨_, hall.tells, fun current outer => ?_⟩
    simp [Reader.step, Reader.mention, hsays _ _, Mention.enclosed, RowMatch.column]

theorem mentions_allRows (rows : List RowMatch) :
    Sql.Mentions d (RowMatch.allSql d rows) ((rows.map RowMatch.column).map (.column none)) := by
  have hrows : Sql.Mentions d (RowMatch.allSql d rows)
      (rows.flatMap fun m => [.column none m.column]) :=
    Sql.mentions_join_map rfl rfl fun m _ => mentions_rowMatch d m
  rw [← List.map_eq_flatMap] at hrows
  rwa [List.map_map]

theorem mentions_assignment (a : Assignment) :
    Sql.Mentions d (a.sql d) (a.columns.map (.column none)) := by
  obtain ⟨column, assigned⟩ := a
  have hcolumn := Sql.tellsThrough_text ((tells_quote d column).through " = " [] rfl rfl)
  have hold := Sql.tellsThrough_text ((tells_quote d column).through " + " [] rfl rfl)
  cases assigned with
  | value p => exact ⟨_, hcolumn.append (Sql.tells_value d p), says_name column⟩
  | increased p =>
    exact ⟨_, hcolumn.append (hold.append (Sql.tells_value d p)),
      (says_name column).append (says_name column)⟩
  | zero =>
    exact ⟨_, hcolumn.append (Sql.tells_text (tells_fixed d "0" [] rfl rfl)), says_name column⟩

theorem mentions_tuple (row : List Parameter) : Sql.Mentions d (Command.tupleSql row) [] := by
  obtain ⟨ts, hts, hsays⟩ := Sql.mentions_values d row
  have hopen := Sql.tellsThrough_text (opens d "(" [.opening] rfl rfl)
  exact ⟨_, ((hopen.append hts).text ")" [.closing] rfl rfl).tells, hsays.enclosed⟩

theorem mentions_returning (returning : Option String) :
    Mentions d (Command.returningSql d returning)
      ((returnedColumns returning d).map (.column none)) := by
  unfold Command.returningSql
  have hnone : Mentions d "" [] := ⟨[], tells_empty d, says_nil⟩
  have hclause : ∀ column, Mentions d (" " ++ ("RETURNING " ++ d.quote column))
      [.column none column] := fun column =>
    ⟨_, (opens d " " [] rfl rfl).append ((opens d "RETURNING " [] rfl rfl).append
      (tells_quote d column)), says_name column⟩
  cases returning with
  | none => cases d <;> exact hnone
  | some column =>
    cases d with
    | mysql => exact hnone
    | postgres => exact hclause column
    | sqlite => exact hclause column

/-- What returns a key begins with a blank, if there is anything. -/
theorem cuts_returning (returning : Option String) :
    cuts (Command.returningSql d returning).toList = true := by
  unfold Command.returningSql
  split
  · exact cuts_text _ rfl
  · rfl

theorem mentions_insertDefaults (table : String) :
    Mentions d (d.insertDefaults table) [.table table] := by
  have hinto := (opens d "INSERT INTO " [.table] rfl rfl).append (tells_quote d table)
  have hdefaults := hinto.append (tells_fixed d " DEFAULT VALUES" [] rfl rfl) rfl
  cases d with
  | mysql =>
    have hvalues := hinto.through " () VALUES ()" [.opening, .closing, .opening, .closing] rfl rfl
    exact ⟨_, hvalues.tells, fun _ _ => rfl⟩
  | postgres => exact ⟨_, hdefaults, says_table table⟩
  | sqlite => exact ⟨_, hdefaults, says_table table⟩

theorem mentions_elements (table : String) (owners : List Parameter) :
    Sql.Mentions d (Command.elementsSql table owners d)
      (bareMentions [Schema.listOwner, Schema.listValue] table [Schema.listOwner, "id"]) := by
  obtain ⟨ts, hts, hnames⟩ := mentions_quotedNames d [Schema.listOwner, Schema.listValue]
  obtain ⟨us, hus, hvalues⟩ := Sql.mentions_values d owners
  have hread := ((opens d "SELECT " [] rfl rfl).append hts).through " FROM " [.table] rfl rfl
  have hfrom := hread.append (tells_quote d table)
  have hin := ((hfrom.through " WHERE " [] rfl rfl).append
    (tells_quote d Schema.listOwner)).through " IN (" [.opening] rfl rfl
  have horder := (opens d ") ORDER BY " [.closing] rfl rfl).append (tells_quote d "id")
  refine ⟨_, ((Sql.tellsThrough_text hin).append hus).last horder (cuts_text _ rfl),
    fun current outer => ?_⟩
  simp [Reader.step, Reader.mention, hnames _ _, hvalues _ _, Mention.enclosed, bareMentions]

/-- The columns read along with a link, and those of the keys, all under new names. -/
theorem mentions_columnsSql (s : LinkSelection) :
    Mentions d (s.columnsSql d) ((s.columns.flatMap fun c => c.1.mentions ++ [.label c.2]) ++
      [.column (some LinkSelection.linkAlias) s.join.owner, .label LinkSelection.ownerName,
        .column (some LinkSelection.linkAlias) s.join.related,
        .label LinkSelection.relatedName]) := by
  have hnamed : ∀ (text name : String) (ms : List Mention), Mentions d text ms →
      Mentions d (LinkSelection.columnSql d text name) (ms ++ [.label name]) := by
    rintro text name ms ⟨ts, hts, hsays⟩
    have hall := (hts.through " AS " [.as] rfl rfl).append (tells_quote d name)
    rw [List.append_assoc] at hall
    exact ⟨_, hall, hsays.append (says_label name)⟩
  have hkey : ∀ column, Mentions d (d.qualified LinkSelection.linkAlias column)
      [.column (some LinkSelection.linkAlias) column] := fun column =>
    ⟨_, tells_qualified d _ column, says_qualified _ column⟩
  -- The texts with what they mention, so that one lemma joins the related columns and the keys.
  let parts : List (String × List Mention) :=
    s.columns.map (fun c => (LinkSelection.columnSql d (c.1.sql d) c.2,
      c.1.mentions ++ [.label c.2])) ++
    [(LinkSelection.columnSql d (d.qualified LinkSelection.linkAlias s.join.owner)
        LinkSelection.ownerName,
      [.column (some LinkSelection.linkAlias) s.join.owner, .label LinkSelection.ownerName]),
    (LinkSelection.columnSql d (d.qualified LinkSelection.linkAlias s.join.related)
        LinkSelection.relatedName,
      [.column (some LinkSelection.linkAlias) s.join.related, .label LinkSelection.relatedName])]
  have hparts : ∀ part ∈ parts, Mentions d part.1 part.2 := by
    intro part hpart
    rcases List.mem_append.mp hpart with hcolumn | hkeys
    · obtain ⟨c, -, rfl⟩ := List.mem_map.mp hcolumn
      exact hnamed _ c.2 _ (mentions_expression d c.1)
    · simp only [List.mem_cons, List.not_mem_nil, or_false] at hkeys
      rcases hkeys with rfl | rfl
      · exact hnamed _ _ _ (hkey s.join.owner)
      · exact hnamed _ _ _ (hkey s.join.related)
  have hjoined : Mentions d (Text.join ", " (parts.map Prod.fst)) (parts.flatMap Prod.snd) :=
    mentions_join rfl rfl hparts
  simpa [parts, LinkSelection.columnsSql, List.flatMap_map, Function.comp_def] using hjoined

theorem mentions_links (s : LinkSelection) : Sql.Mentions d (s.sql d) s.mentions := by
  obtain ⟨ts, hts, hcolumns⟩ := mentions_columnsSql d s
  obtain ⟨us, hus, hvalues⟩ := Sql.mentions_values d s.owners
  have hread := ((opens d "SELECT " [] rfl rfl).append hts).through " FROM " [.table] rfl rfl
  have hfrom := hread.append (tells_quote d s.join.name)
  have hlink := (hfrom.through " AS " [.as] rfl rfl).append (tells_quote d LinkSelection.linkAlias)
  have hjoin := (hlink.through " LEFT JOIN " [.table] rfl rfl).append (tells_quote d s.related)
  have hrelated := (hjoin.through " AS " [.as] rfl rfl).append
    (tells_quote d LinkSelection.relatedAlias)
  have hon := (hrelated.through " ON (" [.opening] rfl rfl).append
    (tells_qualified d LinkSelection.relatedAlias s.relatedKey)
  have hequals := (hon.through " = " [] rfl rfl).append
    (tells_qualified d LinkSelection.linkAlias s.join.related)
  have hwhere := (hequals.through ") WHERE " [.closing] rfl rfl).append
    (tells_qualified d LinkSelection.linkAlias s.join.owner)
  have hin := hwhere.through " IN (" [.opening] rfl rfl
  have horder := (opens d ") ORDER BY " [.closing] rfl rfl).append
    (tells_qualified d LinkSelection.linkAlias "id")
  refine ⟨_, ((Sql.tellsThrough_text hin).append hus).last horder (cuts_text _ rfl),
    fun current outer => ?_⟩
  simp [Reader.step, Reader.mention, hcolumns _ _, hvalues _ _, Mention.enclosed, Mention.isTable,
    LinkSelection.mentions]

end Parts

def Command.touchesRows : Command → Bool
  | drop _ | create _ | raw _ => false
  | _ => true

/-- A command on rows mentions its tables and columns. -/
theorem mentions_command (d : Dialect) {c : Command} (h : c.touchesRows = true) :
    Sql.Mentions d (c.sql d) (c.mentions d) := by
  cases c with
  | drop table => cases h
  | create table => cases h
  | raw s => cases h
  | select s => exact s.mentions_selectSql d
  | count s => exact s.mentions_countSql d
  | lookup columns table rows =>
    obtain ⟨ts, hts, hnames⟩ := mentions_quotedNames d columns
    obtain ⟨us, hus, hrows⟩ := mentions_allRows d rows
    have hread := ((opens d "SELECT " [] rfl rfl).append hts).through " FROM " [.table] rfl rfl
    have hfrom := hread.append (tells_quote d table)
    have hall := (Sql.tellsThrough_text (hfrom.through " WHERE " [] rfl rfl)).append hus
    refine ⟨_, hall, ?_⟩
    have hsays := (hnames.append (says_table table)).append hrows
    simpa [Command.mentions, bareMentions] using hsays
  | elements table owners => exact mentions_elements d table owners
  | links s => exact mentions_links d s
  | insertDefaults table returning =>
    obtain ⟨ts, hts, hinto⟩ := mentions_insertDefaults d table
    obtain ⟨us, hus, hreturning⟩ := mentions_returning d (some returning)
    exact ⟨_, Sql.tells_text (hts.append hus (cuts_returning d _)), hinto.append hreturning⟩
  | insert table columns rows returning =>
    obtain ⟨ts, hts, hnames⟩ := mentions_quotedNames d columns
    obtain ⟨us, hus, hreturning⟩ := mentions_returning d returning
    have hrows : Sql.Mentions d (Sql.join ", " (rows.map Command.tupleSql)) [] := by
      have htuples : Sql.Mentions d (Sql.join ", " (rows.map Command.tupleSql))
          (rows.flatMap fun _ => []) :=
        Sql.mentions_join_map rfl rfl fun row _ => mentions_tuple d row
      rwa [List.flatMap_eq_nil_iff.mpr fun _ _ => rfl] at htuples
    obtain ⟨vs, hvs, hvalues⟩ := hrows
    have hinto := (((opens d "INSERT INTO " [.table] rfl rfl).append (tells_quote d table)).through
      " (" [.opening] rfl rfl).append hts
    have hcolumns := hinto.through ") VALUES " [.closing] rfl rfl
    refine ⟨_, ((Sql.tellsThrough_text hcolumns).append hvs).last hus (cuts_returning d returning),
      fun current outer => ?_⟩
    simp [Reader.step, Reader.mention, hnames _ _, hvalues _ _, hreturning _ _, Mention.enclosed,
      Mention.isTable, Command.mentions, bareMentions]
  | update table assignments rows =>
    have hassignments : Sql.Mentions d (Sql.join ", " (assignments.map (Assignment.sql d)))
        (assignments.flatMap fun a => a.columns.map (.column none)) :=
      Sql.mentions_join_map rfl rfl fun a _ => mentions_assignment d a
    obtain ⟨ts, hts, hassigned⟩ := hassignments
    obtain ⟨us, hus, hrows⟩ := mentions_allRows d rows
    have hset := ((opens d "UPDATE " [.table] rfl rfl).append (tells_quote d table)).through
      " SET " [] rfl rfl
    have hall := (((Sql.tellsThrough_text hset).append hts).text " WHERE " [] rfl rfl).append hus
    refine ⟨_, hall, ?_⟩
    have hsays := ((says_table table).append hassigned).append hrows
    simpa [Command.mentions, bareMentions, List.map_flatMap] using hsays
  | delete table rows =>
    obtain ⟨us, hus, hrows⟩ := mentions_allRows d rows
    have hwhere := ((opens d "DELETE FROM " [.table] rfl rfl).append (tells_quote d table)).through
      " WHERE " [] rfl rfl
    refine ⟨_, (Sql.tellsThrough_text hwhere).append hus, ?_⟩
    have hsays := (says_table table).append hrows
    simpa [Command.mentions, bareMentions] using hsays

/-- Every command is clean but one in the words of the server, and one that makes a table whose
defaults are not. -/
theorem clean_command {d : Dialect} {c : Command} (hraw : ∀ s, c ≠ .raw s)
    (hcreate : ∀ t, c = .create t → ∀ column ∈ t.columns, column.HasCleanDefault d) :
    Sql.Clean d (c.sql d) := by
  cases c with
  | drop table => exact Sql.clean_text (clean_dropTable d table)
  | create table => exact Sql.clean_text (clean_createTable (hcreate table rfl))
  | raw s => exact absurd rfl (hraw s)
  | _ => exact (mentions_command d rfl).clean

end EntityStore
