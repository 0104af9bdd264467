import EntityStore.Proofs.Reading.Page
import EntityStore.Proofs.Selection.Sources

/-!
Pages of the rows found. The pages of one limit lie side by side, as far as an offset can be
written, and a statement asks for exactly the page of its selection.
-/
namespace EntityStore

open Reading

section Clauses

variable (d : Dialect)

theorem passes_jsonPair (name : String) (e : Expression) :
    Passes d (d.jsonPair (name, e.sql d)) 0 0 := by
  have htype : Passes d d.textType 1 1 := by
    cases d <;> exact passes_fixed _ _ 1 1 rfl rfl
  have hcast := ((passes_literal d name 0).through ", CAST(" 1 rfl rfl).append
    (passes_expression d e 1)
  exact (((hcast.through " AS " 1 rfl rfl).append htype).through ")" 0 rfl rfl).passes

theorem passes_jsonObject (pairs : List (String × Expression)) :
    Passes d (d.jsonObject (pairs.map fun p => (p.1, p.2.sql d))) 0 0 := by
  have harguments : Passes d
      (Text.join ", " ((pairs.map fun p => (p.1, p.2.sql d)).map d.jsonPair)) 0 0 := by
    rw [List.map_map]
    refine passes_join rfl rfl fun s hs => ?_
    obtain ⟨p, -, rfl⟩ := List.mem_map.mp hs
    exact passes_jsonPair d p.1 p.2
  cases d with
  | postgres =>
    have hopen := passesThrough_fixed .postgres "CAST(json_build_object(" 0 2 rfl rfl
    exact ((hopen.append (harguments.level 2)).through ") AS TEXT)" 0 rfl rfl).passes
  | mysql =>
    have hopen := passesThrough_fixed .mysql "JSON_OBJECT(" 0 1 rfl rfl
    exact ((hopen.append (harguments.level 1)).through ")" 0 rfl rfl).passes
  | sqlite =>
    have hopen := passesThrough_fixed .sqlite "json_object(" 0 1 rfl rfl
    exact ((hopen.append (harguments.level 1)).through ")" 0 rfl rfl).passes

/-- The one row of a relation is looked up inside of parentheses. -/
theorem passes_embeddedRow (e : EmbeddedRow) : Passes d (e.sql d) 0 0 := by
  have hopen := (passesThrough_fixed d "(SELECT " 0 1 rfl rfl).append
    ((passes_jsonObject d e.pairs).level 1)
  have hfrom := (hopen.through " FROM " 1 rfl rfl).append (passes_quote d e.table 1)
  have has := (hfrom.through " AS " 1 rfl rfl).append (passes_quote d EmbeddedRow.rowAlias 1)
  have hwhere := (has.through " WHERE " 1 rfl rfl).append
    (passes_qualified d EmbeddedRow.rowAlias e.key 1)
  have hequals := (hwhere.through " = " 1 rfl rfl).append (passes_qualified d e.source e.field 1)
  exact (hequals.through " LIMIT 1) AS " 0 rfl rfl).append (passes_quote d e.field 0)

theorem passes_projected (p : Projected) : Passes d (p.sql d) 0 0 := by
  cases p with
  | column source name => exact passes_qualified d source name 0
  | named e name =>
    exact ((passes_expression d e 0).through " AS " 0 rfl rfl).append (passes_quote d name 0)
  | embedded row => exact passes_embeddedRow d row

theorem passes_joinClause (j : JoinClause) : Passes d (j.sql d) 0 0 := by
  have hkind : Passes d j.kind.keyword 0 0 := by
    cases j.kind <;> exact passes_fixed d _ 0 0 rfl rfl
  have htarget := (hkind.through " JOIN " 0 rfl rfl).append (passes_quote d j.target 0)
  have hon := (htarget.through " ON (" 1 rfl rfl).append (passes_qualified d j.source j.field 1)
  have hequals := (hon.through " = " 1 rfl rfl).append (passes_qualified d j.target j.key 1)
  exact (hequals.through ")" 0 rfl rfl).passes

theorem passes_orderClause (o : OrderClause) : Passes d (o.sql d) 0 0 := by
  obtain ⟨ls, hls, hpassed⟩ := passes_expression d o.expression 0
  have hdirection : ∀ direction, isClean direction = true → leads direction 0 0 = true →
      cuts direction.toList = true → Passes d (o.expression.sql d ++ direction) 0 0 := by
    intro direction hclean hleads hcut
    obtain ⟨ms, hms, hrest⟩ := passes_fixed d direction 0 0 hclean hleads
    exact ⟨_, hls.append hcut hms, (passed?_append_of hpassed).trans hrest⟩
  unfold OrderClause.sql
  split
  · exact hdirection " ASC" rfl rfl rfl
  · exact hdirection " DESC" rfl rfl rfl

end Clauses

section Page

def pageLexemes (d : Dialect) (p : Page) : List Lexeme :=
  match d with
  | .postgres => [.word (toString p.limit), .word "OFFSET", .word (toString p.offset)]
  | .mysql | .sqlite => [.word (toString p.offset), .sign ',', .word (toString p.limit)]

theorem reads_limit (d : Dialect) (p : Page) :
    Reads d (d.limit p.offset p.limit) (.word "LIMIT" :: pageLexemes d p) := by
  have hlimit : ReadsThrough d "LIMIT " [.word "LIMIT"] :=
    readsThrough_of_feed (by cases d <;> decide)
  have hoffset : ReadsThrough d " OFFSET " [.word "OFFSET"] :=
    readsThrough_of_feed (by cases d <;> decide)
  have hcomma : ReadsThrough d ", " [.sign ','] :=
    readsThrough_of_feed (by cases d <;> decide)
  have hpage (first last : Nat) {separator : String} {l : Lexeme}
      (hcut : startsCut separator.toList = true) (hs : ReadsThrough d separator [l]) :
      Reads d ("LIMIT " ++ toString first ++ separator ++ toString last)
        [.word "LIMIT", .word (toString first), l, .word (toString last)] :=
    ((hlimit.append (reads_numeral d first)).appendThrough hcut hs).append (reads_numeral d last)
  cases d with
  | postgres => exact hpage p.limit p.offset (by decide) hoffset
  | mysql => exact hpage p.offset p.limit (by decide) hcomma
  | sqlite => exact hpage p.offset p.limit (by decide) hcomma

/-- The numbers of a page are read back as they were given. -/
theorem readPage?_pageLexemes (d : Dialect) (p : Page) :
    readPage? d (pageLexemes d p) = some p := by
  cases d <;> simp only [pageLexemes, readPage?, Text.readNat?_toString] <;> rfl

end Page

namespace Selection

variable (s : Selection) (d : Dialect)

theorem passes_clause (introduction : String) (hi : isThrough introduction = true)
    (hleads : leads introduction 0 0 = true) {body : Sql} (h : Sql.Passes d body) :
    ∀ x ∈ clause introduction body, Sql.Passes d x := by
  unfold clause
  split
  · exact nofun
  · obtain ⟨items, hitems, hlevel⟩ := h
    obtain ⟨ls, hls, hpassed⟩ := passesThrough_fixed d introduction 0 0 hi hleads
    exact List.forall_mem_singleton.mpr
      ⟨_, (Sql.readsThrough_text hls).append hitems, (level_lexemes hpassed).append hlevel⟩

theorem passes_textClause (introduction : String) (hi : isThrough introduction = true)
    (hleads : leads introduction 0 0 = true) {body : String} (h : Passes d body 0 0) :
    ∀ x ∈ textClause introduction body, Sql.Passes d x := by
  unfold textClause
  split
  · exact nofun
  · exact List.forall_mem_singleton.mpr
      (Sql.passes_text ((passesThrough_fixed d introduction 0 0 hi hleads).append h))

def unpaged : List Sql :=
  [Sql.text ("SELECT " ++ s.projectionSql d), Sql.text ("FROM " ++ d.quote s.table)] ++
    s.filters d ++ textClause "ORDER BY " (s.orderSql d)

theorem selectSql_eq : s.selectSql d =
    Sql.join " " (s.unpaged d ++ textClause "" (s.pageSql d)) := by
  rw [selectSql, unpaged]

theorem passes_unpaged : ∀ x ∈ s.unpaged d, Sql.Passes d x := by
  have hprojection : Passes d (s.projectionSql d) 0 0 :=
    passes_join rfl rfl (List.forall_mem_map.mpr fun p _ => passes_projected d p)
  have hjoins : Passes d (s.joinSql d) 0 0 :=
    passes_join rfl rfl (List.forall_mem_map.mpr fun j _ => passes_joinClause d j)
  have hconditions : Sql.Passes d (s.conditionSql d) :=
    Sql.passes_join rfl rfl (List.forall_mem_map.mpr fun p _ => Sql.passes_predicate d p)
  have horder : Passes d (s.orderSql d) 0 0 :=
    passes_join rfl rfl (List.forall_mem_map.mpr fun o _ => passes_orderClause d o)
  intro x hx
  simp only [unpaged, filters, List.mem_append, List.mem_cons, List.not_mem_nil, or_false,
    or_assoc] at hx
  rcases hx with rfl | rfl | hjoin | hcondition | hlast
  · exact Sql.passes_text ((passesThrough_fixed d "SELECT " 0 0 rfl rfl).append hprojection)
  · exact Sql.passes_text ((passesThrough_fixed d "FROM " 0 0 rfl rfl).append
      (passes_quote d s.table 0))
  · exact passes_textClause d "" rfl rfl hjoins x hjoin
  · exact passes_clause d "WHERE " rfl rfl hconditions x hcondition
  · exact passes_textClause d "ORDER BY " rfl rfl horder x hlast

/-- A statement ends with the clause of its page. -/
theorem limitClause?_of_page {p : Page} (hp : s.page = some p) :
    limitClause? 0 (lexemes d ((s.selectSql d).statement d).sql) = some (pageLexemes d p) := by
  have hne : d.limit p.offset p.limit ≠ "" := by
    intro hempty
    have hlength := congrArg String.length hempty
    cases d <;> simp [Dialect.limit] at hlength
  have hpage : textClause "" (s.pageSql d) = [Sql.text (d.limit p.offset p.limit)] := by
    rw [pageSql, hp, textClause, if_neg hne, String.empty_append]
  have hblank : isBetween " " = true := rfl
  obtain ⟨before, hreads, hlevel⟩ := Sql.reads_join_last hblank rfl (s.passes_unpaged d)
    (Sql.reads_text (reads_limit d p))
  rw [← hpage, ← selectSql_eq] at hreads
  have hlexemes := hreads.lexemes_write { dialect := d } rfl
  rw [numbered_append, numbered_lexemes] at hlexemes
  rw [Sql.statement, hlexemes, limitClause?_append (hlevel _)]
  rfl

example : limitClause? 0 (lexemes .sqlite
    "SELECT (SELECT \"c\".\"name\" FROM \"User\" AS \"c\" LIMIT 1) FROM \"LIMIT\" LIMIT 20, 10") =
      some (pageLexemes .sqlite ⟨20, 10⟩) :=
  rfl

theorem limitClause?_of_no_page (hp : s.page = none) :
    limitClause? 0 (lexemes d ((s.selectSql d).statement d).sql) = none := by
  have hpage : textClause "" (s.pageSql d) = [] := by
    rw [pageSql, hp, textClause, if_pos rfl]
  have hblank : isBetween " " = true := rfl
  obtain ⟨items, hreads, hlevel⟩ := Sql.passes_join hblank rfl (s.passes_unpaged d)
  rw [selectSql_eq, hpage, List.append_nil, Sql.statement,
    hreads.lexemes_write { dialect := d } rfl, ← List.append_nil (numbered ..),
    limitClause?_append (hlevel _)]
  rfl

end Selection

section Skipped

variable {o : ReadOptions}

/-- The rows before a page are those of the pages before it, as far as they can be counted. -/
theorem skipped_of_page (ho : o.offset.getD 0 = 0) (l p : Nat) :
    ({ o with limit := some l, page := some (p + 1) } : ReadOptions).skipped =
      min (p * l) Text.maxInt64 := by
  match hoffset : o.offset with
  | none | some 0 => simp [ReadOptions.skipped]
  | some (n + 1) => simp [hoffset] at ho

theorem skipped_le_maxInt64 (ho : o.offset.getD 0 = 0) : o.skipped ≤ Text.maxInt64 := by
  unfold ReadOptions.skipped
  split
  · next n _ hoffset => simp [hoffset] at ho
  · exact Nat.min_le_right ..
  · exact Nat.zero_le _

theorem skipped_of_offset {n : Nat} (ho : o.offset = some n) (hn : 0 < n) : o.skipped = n := by
  obtain ⟨m, rfl⟩ := Nat.exists_eq_succ_of_ne_zero (Nat.ne_of_gt hn)
  simp [ReadOptions.skipped, ho]

/-- A row whose number can be an offset stands on the page that its number divided by the limit
tells, and on no other one. -/
theorem on_page_iff (ho : o.offset.getD 0 = 0) {l i p : Nat} (hl : 1 ≤ l)
    (hi : i < Text.maxInt64) :
    let skipped := ({ o with limit := some l, page := some (p + 1) } : ReadOptions).skipped
    skipped ≤ i ∧ i < skipped + l ↔ p = i / l := by
  have hdivision : p = i / l ↔ p * l ≤ i ∧ i < p * l + l := by
    rw [eq_comm, Nat.div_eq_iff hl]
    omega
  rw [skipped_of_page ho, hdivision]
  omega

end Skipped

/-- Pages of one limit lie side by side: a row whose number can be an offset stands on exactly one
of them, and no page begins behind the last number that can be an offset. An offset that is asked
for is kept, whatever the page. A statement ends with a clause of exactly the page that is asked
for, and has no such clause where there is no limit. -/
theorem pages_tile :
    (∀ (o : ReadOptions) (l i : Nat), o.offset.getD 0 = 0 → 1 ≤ l → l ≤ Text.maxUInt64 →
      i < Text.maxInt64 → ∃! p, (1 ≤ p ∧ p ≤ Text.maxUInt64) ∧
        let skipped := ({ o with limit := some l, page := some p } : ReadOptions).skipped
        skipped ≤ i ∧ i < skipped + l) ∧
    (∀ o : ReadOptions, o.offset.getD 0 = 0 → o.skipped ≤ Text.maxInt64) ∧
    (∀ (o : ReadOptions) (n : Nat), o.offset = some n → 0 < n → o.skipped = n) ∧
    ∀ (r : Registry) (q : Query) (s : Selection) (d : Dialect), q.selection r = .ok s →
      let clause? := limitClause? 0 (lexemes d ((s.selectSql d).statement d).sql)
      (∀ l, q.options.limit = some l → 0 < l → ∃ clause, clause? = some clause ∧
        readPage? d clause = some ⟨q.options.skipped, l⟩) ∧
      (q.options.limit.getD 0 = 0 → clause? = none) := by
  refine ⟨fun o l i ho hl _ hi => ?_, fun o ho => skipped_le_maxInt64 ho,
    fun o n ho hn => skipped_of_offset ho hn, fun r q s d hs => ?_⟩
  · have hlast : i / l + 1 ≤ Text.maxUInt64 := by
      have hle : i / l ≤ i := Nat.div_le_self i l
      have hmax : Text.maxInt64 + 1 ≤ Text.maxUInt64 := by decide
      omega
    refine ⟨i / l + 1, ⟨⟨Nat.le_add_left 1 _, hlast⟩, (on_page_iff ho hl hi).mpr rfl⟩, ?_⟩
    rintro (_ | p) ⟨⟨hfirst, -⟩, hon⟩
    · exact absurd hfirst (by decide)
    · rw [(on_page_iff ho hl hi).mp hon]
  · have hpage : s.page = Query.page? q.options := by
      obtain ⟨_, _, -, -, rfl⟩ := Query.selection_eq_ok.mp hs
      rfl
    constructor
    · intro l hl hpos
      obtain ⟨n, rfl⟩ := Nat.exists_eq_succ_of_ne_zero (Nat.ne_of_gt hpos)
      have hasked : s.page = some ⟨q.options.skipped, n + 1⟩ := by rw [hpage, Query.page?, hl]
      exact ⟨_, s.limitClause?_of_page d hasked, readPage?_pageLexemes d _⟩
    · intro hl
      refine s.limitClause?_of_no_page d ?_
      rw [hpage, Query.page?]
      split
      · next n hlimit => simp [hlimit] at hl
      · rfl

namespace Sample

def notes : Registry := ⟨[{ name := "Note" }], rfl⟩

def tenNotes : Query := (Query.ofModel "Note").limit 10

end Sample

open Sample in
theorem pages_of_ten_notes :
    (∃! p, (1 ≤ p ∧ p ≤ Text.maxUInt64) ∧
      let skipped := (tenNotes.page p).options.skipped
      skipped ≤ 25 ∧ 25 < skipped + 10) ∧
    (tenNotes.page Text.maxUInt64).options.skipped ≤ Text.maxInt64 ∧
    ((tenNotes.page 3).offset 7).options.skipped = 7 ∧
    (∃ s, (tenNotes.page 3).selection notes = .ok s ∧ ∃ clause,
      limitClause? 0 (lexemes .mysql ((s.selectSql .mysql).statement .mysql).sql) = some clause ∧
      readPage? .mysql clause = some ⟨20, 10⟩) ∧
    ∃ s, (tenNotes.limit 0).selection notes = .ok s ∧
      limitClause? 0 (lexemes .mysql ((s.selectSql .mysql).statement .mysql).sql) = none := by
  obtain ⟨htile, hbound, hoffset, hclause⟩ := pages_tile
  exact ⟨htile tenNotes.options 10 25 rfl (by decide) (by decide) (by decide),
    hbound (tenNotes.page Text.maxUInt64).options rfl,
    hoffset ((tenNotes.page 3).offset 7).options 7 rfl (by decide),
    ⟨_, rfl, (hclause notes (tenNotes.page 3) _ .mysql rfl).1 10 rfl (by decide)⟩,
    ⟨_, rfl, (hclause notes (tenNotes.limit 0) _ .mysql rfl).2 rfl⟩⟩

end EntityStore
