import EntityStore.Proofs.Reading.Mention
import EntityStore.Proofs.Reading.Predicate
import EntityStore.Selection

/-!
The tables and columns that the two statements of a selection mention, clause by clause, whatever
names it is made of.
-/
namespace EntityStore

open Reading

section Expressions

def Expression.mentions : Expression → List Mention
  | column source name => [.column (some source) name]
  | localized table key source name =>
    [.scope [.column (some localizedAlias) name, .table table, .label localizedAlias,
      .column (some localizedAlias) key, .column (some source) key]]

theorem Expression.mentions_values (e : Expression) : e.mentions.all Mention.isValue = true := by
  cases e <;> rfl

theorem says_expression (e : Expression) :
    Says ((expressionLexemes e).filterMap token?) e.mentions := by
  cases e <;> exact fun _ _ => rfl

theorem mentions_expression (d : Dialect) (e : Expression) : Mentions d (e.sql d) e.mentions :=
  ⟨_, ⟨_, reads_expression d e, expressionLexemes_no_placeholder e, rfl⟩, says_expression e⟩

theorem mentions_jsonPair (d : Dialect) (name : String) (e : Expression) :
    Mentions d (d.jsonPair (name, e.sql d)) e.mentions := by
  obtain ⟨ts, hts, hsays⟩ := mentions_expression d e
  have htype : Tells d d.textType [] := by
    cases d <;> exact tells_fixed _ _ [] rfl rfl
  have hcast := ((tells_literal d name).through ", CAST(" [.opening] rfl rfl).append hts
  have hbody := (hcast.through " AS " [.as] rfl rfl).append htype
  refine ⟨_, (hbody.through ")" [.closing] rfl rfl).tells, fun current outer => ?_⟩
  simp [Reader.step, hsays _ _, Mention.enclosed_values e.mentions_values]

theorem pairs_mentions_values (pairs : List (String × Expression)) :
    (pairs.flatMap fun p => p.2.mentions).all Mention.isValue = true := by
  rw [List.all_flatMap, List.all_eq_true]
  exact fun p _ => p.2.mentions_values

/-- Names in a JSON object are literals, and its values are expressions. -/
theorem mentions_jsonObject (d : Dialect) (pairs : List (String × Expression)) :
    Mentions d (d.jsonObject (pairs.map fun p => (p.1, p.2.sql d)))
      (pairs.flatMap fun p => p.2.mentions) := by
  have harguments : Mentions d
      (Text.join ", " ((pairs.map fun p => (p.1, p.2.sql d)).map d.jsonPair))
      (pairs.flatMap fun p => p.2.mentions) := by
    rw [List.map_map]
    exact mentions_join rfl rfl fun p _ => mentions_jsonPair d p.1 p.2
  obtain ⟨ts, hts, hsays⟩ := harguments
  have hvalues := Mention.enclosed_values (pairs_mentions_values pairs)
  cases d with
  | postgres =>
    have hopen := opens .postgres "CAST(json_build_object(" [.opening, .opening] rfl rfl
    refine ⟨_, ((hopen.append hts).through ") AS TEXT)" [.closing, .as, .closing] rfl rfl).tells,
      fun current outer => ?_⟩
    simp [Reader.step, hsays _ _, hvalues]
  | mysql =>
    have hopen := opens .mysql "JSON_OBJECT(" [.opening] rfl rfl
    refine ⟨_, ((hopen.append hts).through ")" [.closing] rfl rfl).tells, fun current outer => ?_⟩
    simp [Reader.step, hsays _ _, hvalues]
  | sqlite =>
    have hopen := opens .sqlite "json_object(" [.opening] rfl rfl
    refine ⟨_, ((hopen.append hts).through ")" [.closing] rfl rfl).tells, fun current outer => ?_⟩
    simp [Reader.step, hsays _ _, hvalues]

end Expressions

section Clauses

def EmbeddedRow.mentions (e : EmbeddedRow) : List Mention :=
  [.scope ((e.pairs.flatMap fun p => p.2.mentions) ++
      [.table e.table, .label rowAlias, .column (some rowAlias) e.key,
        .column (some e.source) e.field]),
    .label e.field]

def Projected.mentions : Projected → List Mention
  | column source name => [.column (some source) name]
  | named e name => e.mentions ++ [.label name]
  | embedded row => row.mentions

def JoinClause.mentions (j : JoinClause) : List Mention :=
  [.table j.target, .column (some j.source) j.field, .column (some j.target) j.key]

theorem mentions_embeddedRow (d : Dialect) (e : EmbeddedRow) : Mentions d (e.sql d) e.mentions := by
  obtain ⟨ts, hts, hsays⟩ := mentions_jsonObject d e.pairs
  have hopen := (opens d "(SELECT " [.opening] rfl rfl).append hts
  have hfrom := (hopen.through " FROM " [.table] rfl rfl).append (tells_quote d e.table)
  have has := (hfrom.through " AS " [.as] rfl rfl).append (tells_quote d EmbeddedRow.rowAlias)
  have hwhere := (has.through " WHERE " [] rfl rfl).append
    (tells_qualified d EmbeddedRow.rowAlias e.key)
  have hequals := (hwhere.through " = " [] rfl rfl).append (tells_qualified d e.source e.field)
  refine ⟨_, (hequals.through " LIMIT 1) AS " [.closing, .as] rfl rfl).append
    (tells_quote d e.field), fun current outer => ?_⟩
  simp [Reader.step, Reader.mention, hsays _ _, Mention.enclosed, Mention.isTable,
    EmbeddedRow.mentions]

theorem mentions_projected (d : Dialect) (p : Projected) : Mentions d (p.sql d) p.mentions := by
  cases p with
  | column source name => exact ⟨_, tells_qualified d source name, says_qualified source name⟩
  | named e name =>
    obtain ⟨ts, hts, hsays⟩ := mentions_expression d e
    have hall := (hts.through " AS " [.as] rfl rfl).append (tells_quote d name)
    rw [List.append_assoc] at hall
    exact ⟨_, hall, hsays.append (says_label name)⟩
  | embedded row => exact mentions_embeddedRow d row

theorem mentions_joinClause (d : Dialect) (j : JoinClause) : Mentions d (j.sql d) j.mentions := by
  have hkind : Tells d j.kind.keyword [] := by
    cases j.kind <;> exact tells_fixed d _ [] rfl rfl
  have htarget := (hkind.through " JOIN " [.table] rfl rfl).append (tells_quote d j.target)
  have hon := (htarget.through " ON (" [.opening] rfl rfl).append
    (tells_qualified d j.source j.field)
  have hequals := (hon.through " = " [] rfl rfl).append (tells_qualified d j.target j.key)
  exact ⟨_, (hequals.through ")" [.closing] rfl rfl).tells, fun _ _ => rfl⟩

theorem mentions_orderClause (d : Dialect) (o : OrderClause) :
    Mentions d (o.sql d) o.expression.mentions := by
  obtain ⟨ts, hts, hsays⟩ := mentions_expression d o.expression
  have hdirection : ∀ direction, isClean direction = true → hasTokens direction [] = true →
      cuts direction.toList = true → Mentions d (o.expression.sql d ++ direction)
        o.expression.mentions := by
    intro direction hclean hno hcut
    have hall := hts.append (tells_fixed d direction [] hclean hno) hcut
    rw [List.append_nil] at hall
    exact ⟨ts, hall, hsays⟩
  unfold OrderClause.sql
  split
  · exact hdirection " ASC" rfl rfl rfl
  · exact hdirection " DESC" rfl rfl rfl

theorem mentions_limit (d : Dialect) (offset limit : Nat) :
    Mentions d (d.limit offset limit) [] := by
  cases d with
  | postgres =>
    have hlimit := (opens .postgres "LIMIT " [] rfl rfl).append (tells_toString _ limit)
    exact ⟨_, (hlimit.through " OFFSET " [] rfl rfl).append (tells_toString _ offset), says_nil⟩
  | mysql =>
    have hoffset := (opens .mysql "LIMIT " [] rfl rfl).append (tells_toString _ offset)
    exact ⟨_, (hoffset.through ", " [] rfl rfl).append (tells_toString _ limit), says_nil⟩
  | sqlite =>
    have hoffset := (opens .sqlite "LIMIT " [] rfl rfl).append (tells_toString _ offset)
    exact ⟨_, (hoffset.through ", " [] rfl rfl).append (tells_toString _ limit), says_nil⟩

end Clauses

section Predicates

def Operand.mentions : Operand → List Mention
  | expression e => e.mentions
  | value _ => []

namespace Predicate

mutual

def mentions : Predicate → List Mention
  | compare left _ right => left.mentions ++ right.mentions
  | connect _ children => mentionsOf children

def mentionsOf : List Predicate → List Mention
  | [] => []
  | p :: rest => mentions p ++ mentionsOf rest

end

theorem mentionsOf_eq_flatMap (ps : List Predicate) : mentionsOf ps = ps.flatMap mentions := by
  induction ps with
  | nil => rfl
  | cons p rest ih => rw [mentionsOf, ih, List.flatMap_cons]

theorem mentions_values (p : Predicate) : p.mentions.all Mention.isValue = true := by
  induction p using Predicate.induction with
  | compare left operator right =>
    rw [mentions, List.all_append, left.mentions_values, Bool.true_and]
    cases right with
    | expression e => exact e.mentions_values
    | value v => rfl
  | connect operator children ih =>
    rw [mentions, mentionsOf_eq_flatMap, List.all_flatMap, List.all_eq_true]
    exact ih

end Predicate

theorem itemTokens_joinItems {separator : List Lexeme} (h : separator.filterMap token? = [])
    (parts : List (List Item)) :
    (joinItems separator parts).filterMap itemToken? =
      parts.flatMap fun part => part.filterMap itemToken? := by
  induction parts with
  | nil => rfl
  | cons part rest ih =>
    cases rest with
    | nil => rw [joinItems, List.flatMap_singleton]
    | cons next tail =>
      rw [joinItems, List.filterMap_append, List.filterMap_append, itemTokens_lexemes, h,
        List.append_nil, ih]
      rfl

theorem says_operand (o : Operand) : Says (o.items.filterMap itemToken?) o.mentions := by
  cases o with
  | expression e =>
    rw [Operand.items, itemTokens_lexemes]
    exact says_expression e
  | value p => cases p <;> exact says_nil

/-- Parentheses around a predicate are no scope. -/
theorem says_predicate (p : Predicate) : Says (p.items.filterMap itemToken?) p.mentions := by
  induction p using Predicate.induction with
  | compare left operator right =>
    have hoperator : (operatorLexemes operator).filterMap token? = [] := by
      cases operator <;> rfl
    have hinner := ((says_expression left).append (says_operand right)).enclosed
    have hvalues := (Predicate.compare left operator right).mentions_values
    rw [Predicate.mentions] at hvalues
    rw [Mention.enclosed_values hvalues] at hinner
    simp only [Predicate.items, Predicate.mentions, List.filterMap_append, itemTokens_lexemes,
      hoperator, List.append_nil, List.append_assoc]
    simp only [List.append_assoc] at hinner
    exact hinner
  | connect operator children ih =>
    have hseparator : [Lexeme.word operator.symbol].filterMap token? = [] := by
      cases operator <;> rfl
    have hinner := (says_flatMap ih).enclosed
    have hvalues := (Predicate.connect operator children).mentions_values
    rw [Predicate.mentions, Predicate.mentionsOf_eq_flatMap] at hvalues
    rw [Mention.enclosed_values hvalues] at hinner
    simpa [Predicate.items, Predicate.itemsOf_eq_map, Predicate.mentions,
      Predicate.mentionsOf_eq_flatMap, List.filterMap_append, itemTokens_joinItems hseparator,
      List.flatMap_map, itemToken?, token?] using hinner

theorem mentions_predicate (d : Dialect) (p : Predicate) : Sql.Mentions d (p.sql d) p.mentions :=
  ⟨_, ⟨_, p.reads d, p.plain d, rfl⟩, says_predicate p⟩

end Predicates

namespace Selection

variable (s : Selection) (d : Dialect)

def filterMentions : List Mention :=
  s.clauses.joins.flatMap JoinClause.mentions ++ s.clauses.conditions.flatMap Predicate.mentions

def selectMentions : List Mention :=
  s.clauses.projection.flatMap Projected.mentions ++ [.table s.table] ++ s.filterMentions ++
    s.clauses.order.flatMap fun o => o.expression.mentions

def countMentions : List Mention :=
  [.label totalColumn, .table s.table] ++ s.filterMentions

theorem mentions_projectionSql :
    Mentions d (s.projectionSql d) (s.clauses.projection.flatMap Projected.mentions) :=
  mentions_join rfl rfl fun p _ => mentions_projected d p

theorem mentions_joinSql :
    Mentions d (s.joinSql d) (s.clauses.joins.flatMap JoinClause.mentions) :=
  mentions_join rfl rfl fun j _ => mentions_joinClause d j

theorem mentions_orderSql :
    Mentions d (s.orderSql d) (s.clauses.order.flatMap fun o => o.expression.mentions) :=
  mentions_join rfl rfl fun o _ => mentions_orderClause d o

theorem mentions_pageSql : Mentions d (s.pageSql d) [] := by
  unfold pageSql
  split
  · exact mentions_limit d _ _
  · exact ⟨[], tells_empty d, says_nil⟩

theorem mentions_conditionSql :
    Sql.Mentions d (s.conditionSql d) (s.clauses.conditions.flatMap Predicate.mentions) :=
  Sql.mentions_join_map rfl rfl fun p _ => mentions_predicate d p

/-- What a body mentions, its clause does; an empty body has no clause. -/
theorem mentions_clause (introduction : String) (hi : isThrough introduction = true)
    (hno : hasTokens introduction [] = true) {body : Sql} {ms : List Mention}
    (h : Sql.Mentions d body ms) : ∃ parts,
      List.Forall₂ (Sql.Mentions d) (clause introduction body) parts ∧ parts.flatten = ms := by
  cases body with
  | nil => exact ⟨[], .nil, h.mentions_eq⟩
  | cons piece rest =>
    obtain ⟨ts, hts, hsays⟩ := h
    have hall := (Sql.tellsThrough_text (opens d introduction [] hi hno)).append hts
    exact ⟨[ms], .cons ⟨ts, hall, hsays⟩ .nil, List.flatten_singleton⟩

theorem mentions_textClause (introduction : String) (hi : isThrough introduction = true)
    (hno : hasTokens introduction [] = true) {body : String} {ms : List Mention}
    (h : Mentions d body ms) : ∃ parts,
      List.Forall₂ (Sql.Mentions d) (textClause introduction body) parts ∧ parts.flatten = ms := by
  obtain ⟨ts, hts, hsays⟩ := h
  unfold textClause
  split
  · next hempty =>
    subst hempty
    exact ⟨[], .nil, (Sql.mentions_text ⟨ts, hts, hsays⟩).mentions_eq⟩
  · have hall := (opens d introduction [] hi hno).append hts
    exact ⟨[ms], .cons (Sql.mentions_text ⟨ts, hall, hsays⟩) .nil, List.flatten_singleton⟩

theorem mentions_filters : ∃ parts,
    List.Forall₂ (Sql.Mentions d) (s.filters d) parts ∧ parts.flatten = s.filterMentions := by
  obtain ⟨joins, hjoins, hjoined⟩ := mentions_textClause d "" rfl rfl (s.mentions_joinSql d)
  obtain ⟨conditions, hconditions, hkept⟩ :=
    mentions_clause d "WHERE " rfl rfl (s.mentions_conditionSql d)
  refine ⟨joins ++ conditions, List.rel_append hjoins hconditions, ?_⟩
  rw [List.flatten_append, hjoined, hkept, filterMentions]

private theorem mentions_from (table : String) :
    Sql.Mentions d (Sql.text ("FROM " ++ d.quote table)) [.table table] :=
  Sql.mentions_text ⟨_, (opens d "FROM " [.table] rfl rfl).append (tells_quote d table),
    says_table table⟩

theorem mentions_selectSql : Sql.Mentions d (s.selectSql d) s.selectMentions := by
  obtain ⟨ts, hts, hsays⟩ := s.mentions_projectionSql d
  have hselect : Sql.Mentions d (Sql.text ("SELECT " ++ s.projectionSql d))
      (s.clauses.projection.flatMap Projected.mentions) :=
    Sql.mentions_text ⟨ts, (opens d "SELECT " [] rfl rfl).append hts, hsays⟩
  obtain ⟨filters, hfilters, hfiltered⟩ := s.mentions_filters d
  obtain ⟨order, horder, hordered⟩ :=
    mentions_textClause d "ORDER BY " rfl rfl (s.mentions_orderSql d)
  obtain ⟨page, hpage, hpaged⟩ := mentions_textClause d "" rfl rfl (s.mentions_pageSql d)
  have hparts := List.rel_append (List.rel_append (List.rel_append
    (.cons hselect (.cons (mentions_from d s.table) .nil)) hfilters) horder) hpage
  have hall : Sql.Mentions d (s.selectSql d) _ := Sql.mentions_join rfl rfl hparts
  simpa [selectMentions, hfiltered, hordered, hpaged] using hall

theorem mentions_countSql : Sql.Mentions d (s.countSql d) s.countMentions := by
  have hcount : Sql.Mentions d (Sql.text ("SELECT COUNT(*) AS " ++ d.quote totalColumn))
      [.label totalColumn] :=
    Sql.mentions_text ⟨_, (opens d "SELECT COUNT(*) AS " [.opening, .closing, .as] rfl rfl).append
      (tells_quote d totalColumn), fun _ _ => rfl⟩
  obtain ⟨filters, hfilters, hfiltered⟩ := s.mentions_filters d
  have hparts := List.rel_append (.cons hcount (.cons (mentions_from d s.table) .nil)) hfilters
  have hall : Sql.Mentions d (s.countSql d) _ := Sql.mentions_join rfl rfl hparts
  simpa [countMentions, hfiltered] using hall

theorem clean_selectSql : Sql.Clean d (s.selectSql d) :=
  (s.mentions_selectSql d).clean

theorem clean_countSql : Sql.Clean d (s.countSql d) :=
  (s.mentions_countSql d).clean

end Selection

end EntityStore
