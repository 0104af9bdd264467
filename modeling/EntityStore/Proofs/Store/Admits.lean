import EntityStore.Proofs.Selection.Stored
import EntityStore.Store.Read

/-!
The commands that a registry admits: selections of its queries, and commands on the tables and
columns that its models provide for. The statement of an admitted command names nothing else.
-/
namespace EntityStore

open Reading

structure Registry.HoldsAll (r : Registry) (table : String) (columns : List String) : Prop where
  nonempty : ∃ column, r.Holds table column
  holds : ∀ column ∈ columns, r.Holds table column

structure Registry.HoldsLinks (r : Registry) (s : LinkSelection) : Prop where
  join : r.HoldsAll s.join.name [s.join.owner, s.join.related, "id"]
  related : ∃ related ∈ r.schemas, s.related = related.name ∧ s.relatedKey = related.primaryKey ∧
    ∀ c ∈ s.columns, ∃ n, related.expression? LinkSelection.relatedAlias n = some c.1

inductive Registry.Admits (r : Registry) : Command → Prop
  | select {q : Query} {s : Selection} : q.selection r = .ok s → Admits r (.select s)
  | count {q : Query} {s : Selection} : q.selection r = .ok s → Admits r (.count s)
  | lookup {columns : List String} {table : String} {rows : List RowMatch} :
    r.HoldsAll table (columns ++ rows.map RowMatch.column) → Admits r (.lookup columns table rows)
  | elements {table : String} (owners : List Parameter) :
    r.HoldsAll table [Schema.listOwner, Schema.listValue, "id"] → Admits r (.elements table owners)
  | links {s : LinkSelection} : r.HoldsLinks s → Admits r (.links s)
  | insertDefaults {table key : String} : r.Holds table key → Admits r (.insertDefaults table key)
  | insert {table : String} {columns : List String} (rows : List (List Parameter))
      {returning : Option String} :
    r.HoldsAll table (columns ++ returning.toList) →
    Admits r (.insert table columns rows returning)
  | update {table : String} {assignments : List Assignment} {rows : List RowMatch} :
    r.HoldsAll table (assignments.map Assignment.column ++ rows.map RowMatch.column) →
    Admits r (.update table assignments rows)
  | delete {table : String} {rows : List RowMatch} :
    r.HoldsAll table (rows.map RowMatch.column) → Admits r (.delete table rows)

theorem Registry.Admits.touchesRows {r : Registry} {c : Command} (h : r.Admits c) :
    c.touchesRows = true := by
  cases h <;> rfl

/-- Rows that are found by one column are updated. -/
theorem Registry.Admits.updateRow {r : Registry} {table : String} {row : RowMatch}
    (hrow : r.Holds table row.column) {assignments : List Assignment}
    (h : ∀ a ∈ assignments, r.Holds table a.column) :
    r.Admits (.update table assignments [row]) := by
  refine .update ⟨⟨_, hrow⟩, List.forall_mem_append.mpr ⟨?_, List.forall_mem_singleton.mpr hrow⟩⟩
  intro column hcolumn
  obtain ⟨a, ha, rfl⟩ := List.mem_map.mp hcolumn
  exact h a ha

/-- Rows that are found by one column are deleted. -/
theorem Registry.Admits.deleteRow {r : Registry} {table : String} {row : RowMatch}
    (hrow : r.Holds table row.column) : r.Admits (.delete table [row]) :=
  .delete ⟨⟨_, hrow⟩, List.forall_mem_singleton.mpr hrow⟩

section Fits

variable {r : Registry} {d : Dialect}

theorem tablesOf_bareMentions (before : List String) (table : String) (behind : List String) :
    tablesOf (bareMentions before table behind) = [(table, table)] := by
  have hbare : ∀ names : List String, tablesOf (names.map (.column none)) = [] := by
    intro names
    induction names with
    | nil => rfl
    | cons name rest ih => exact ih
  have hno : (before.map (Mention.column none)).any Mention.isTable = false := by
    simp [Mention.isTable]
  rw [bareMentions, tablesOf_append hno]
  cases behind with
  | nil => rfl
  | cons name rest => exact congrArg _ (hbare rest)

/-- Columns without a table are those of the only one. -/
theorem fits_bareMentions {tables : List Table} {before behind : List String} {table : String}
    (htable : ∃ column, Provides tables table column)
    (hbefore : ∀ column ∈ before, Provides tables table column)
    (hbehind : ∀ column ∈ behind, Provides tables table column) :
    Mention.Fits tables [] (.scope (bareMentions before table behind)) := by
  refine .scope fun m hm => ?_
  rw [tablesOf_bareMentions]
  simp only [bareMentions, List.mem_append, List.mem_map, List.mem_cons] at hm
  rcases hm with ⟨column, hcolumn, rfl⟩ | rfl | ⟨column, hcolumn, rfl⟩
  · exact fits_bare (hbefore column hcolumn)
  · obtain ⟨column, hcolumn⟩ := htable
    exact fits_table hcolumn
  · exact fits_bare (hbehind column hcolumn)

theorem fits_links (hkeys : r.HoldsKeys) {s : LinkSelection} (h : r.HoldsLinks s) :
    Mention.Fits (r.tables d) [] (.scope s.mentions) := by
  obtain ⟨hjoin, related, hrelated, htable, hkey, hcolumns⟩ := h
  have hnone : (s.columns.flatMap fun c => c.1.mentions ++ [.label c.2]).any Mention.isTable =
      false := by
    rw [List.any_flatMap, List.any_eq_false]
    intro c _
    simp [Mention.no_table_of_values c.1.mentions_values, Mention.isTable]
  have hlink := fun column hcolumn => (hjoin.holds column hcolumn).provided hkeys d
  have hkeyHeld := (Registry.Holds.key hrelated).provided hkeys d
  have htables : tablesOf s.mentions =
      [(LinkSelection.linkAlias, s.join.name), (LinkSelection.relatedAlias, s.related)] := by
    rw [LinkSelection.mentions, tablesOf_append hnone]
    rfl
  have hlinkAlias : tableOf [tablesOf s.mentions] LinkSelection.linkAlias = s.join.name := by
    rw [htables]
    rfl
  have hrelatedAlias : tableOf [tablesOf s.mentions] LinkSelection.relatedAlias = s.related := by
    rw [htables]
    rfl
  refine .scope fun m hm => ?_
  rcases List.mem_append.mp hm with hread | hrest
  · obtain ⟨c, hc, hm⟩ := List.mem_flatMap.mp hread
    obtain ⟨n, hn⟩ := hcolumns c hc
    rcases List.mem_append.mp hm with hexpression | hlabel
    · exact fits_expression hkeys hrelated hn (by decide) (hrelatedAlias.trans htable) m hexpression
    · rw [List.mem_singleton.mp hlabel]
      exact .label _
  · simp only [List.mem_cons, List.not_mem_nil, or_false] at hrest
    rcases hrest with rfl | rfl | rfl | rfl | rfl | rfl | rfl | rfl | rfl | rfl | rfl | rfl
    · exact fits_qualified (hlink s.join.owner (by simp)) hlinkAlias
    · exact .label _
    · exact fits_qualified (hlink s.join.related (by simp)) hlinkAlias
    · exact .label _
    · exact fits_table (hlink s.join.owner (by simp))
    · exact .label _
    · exact htable ▸ fits_table hkeyHeld
    · exact .label _
    · exact hkey ▸ fits_qualified hkeyHeld (hrelatedAlias.trans htable)
    · exact fits_qualified (hlink s.join.related (by simp)) hlinkAlias
    · exact fits_qualified (hlink s.join.owner (by simp)) hlinkAlias
    · exact fits_qualified (hlink "id" (by simp)) hlinkAlias

theorem mem_returnedColumns {returning : Option String} {column : String}
    (h : column ∈ returnedColumns returning d) : column ∈ returning.toList := by
  cases d with
  | mysql => cases h
  | _ => exact h

/-- What an admitted command mentions is made. -/
theorem Registry.Admits.fits (hkeys : r.HoldsKeys) (halias : r.AvoidsAliases) {c : Command}
    (h : r.Admits c) : Mention.Fits (r.tables d) [] (.scope (c.mentions d)) := by
  have hprovided : ∀ {table columns}, r.HoldsAll table columns → ∀ column ∈ columns,
      Provides (r.tables d) table column := fun hall column hcolumn =>
    (hall.holds column hcolumn).provided hkeys d
  have hsome : ∀ {table columns}, r.HoldsAll table columns →
      ∃ column, Provides (r.tables d) table column := fun hall =>
    hall.nonempty.imp fun column hcolumn => hcolumn.provided hkeys d
  cases h with
  | @select q s hq =>
    obtain ⟨hstored, model, hmodel, htable⟩ := stored_selection hkeys halias hq
    exact s.fits_select hstored (htable ▸ (Holds.key hmodel).provided hkeys d)
  | @count q s hq =>
    obtain ⟨hstored, model, hmodel, htable⟩ := stored_selection hkeys halias hq
    exact s.fits_count hstored (htable ▸ (Holds.key hmodel).provided hkeys d)
  | lookup hall =>
    obtain ⟨hcolumns, hrows⟩ := List.forall_mem_append.mp (hprovided hall)
    exact fits_bareMentions (hsome hall) hcolumns hrows
  | elements owners hall =>
    have hcolumns := hprovided hall
    simp only [List.mem_cons, List.not_mem_nil, or_false, forall_eq_or_imp, forall_eq] at hcolumns
    obtain ⟨howner, hvalue, hid⟩ := hcolumns
    exact fits_bareMentions (hsome hall) (by simp [howner, hvalue]) (by simp [howner, hid])
  | links hlinks => exact fits_links hkeys hlinks
  | @insertDefaults table key hkey =>
    have hkey := hkey.provided hkeys d
    refine fits_bareMentions ⟨key, hkey⟩ (by simp) fun column hcolumn => ?_
    rw [List.mem_singleton.mp (mem_returnedColumns hcolumn)]
    exact hkey
  | insert rows hall =>
    obtain ⟨hcolumns, hreturned⟩ := List.forall_mem_append.mp (hprovided hall)
    refine fits_bareMentions (hsome hall) (by simp) (List.forall_mem_append.mpr ⟨hcolumns, ?_⟩)
    exact fun column hcolumn => hreturned column (mem_returnedColumns hcolumn)
  | @update table assignments rows hall =>
    obtain ⟨hassigned, hrows⟩ := List.forall_mem_append.mp (hprovided hall)
    refine fits_bareMentions (hsome hall) (by simp) (List.forall_mem_append.mpr ⟨?_, hrows⟩)
    intro column hcolumn
    obtain ⟨a, ha, hcolumn⟩ := List.mem_flatMap.mp hcolumn
    have hname : column = a.column := by
      unfold Assignment.columns at hcolumn
      split at hcolumn <;> simpa using hcolumn
    exact hname ▸ hassigned a.column (List.mem_map_of_mem ha)
  | delete hall => exact fits_bareMentions (hsome hall) (by simp) (hprovided hall)

end Fits

end EntityStore
