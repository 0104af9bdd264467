import EntityStore.CommandLine
import EntityStore.Proofs.Session.Trace
import EntityStore.Proofs.Storage.TableColumns

/-!
The script that makes the tables. What is printed is what a sync sends, up to the first statement
that the server fails, and it makes for each model its own table, then that of its localized values,
then one for each field that needs one, and no other.
-/
namespace EntityStore

/-- Where a relation picks one part for each element, the parts are an image of the list. -/
theorem forall₂_iff_map {α β : Type} {R : α → β → Prop} {g : α → β} {xs : List α} {ys : List β}
    (h : ∀ x ∈ xs, ∀ y, R x y ↔ y = g x) : List.Forall₂ R xs ys ↔ ys = xs.map g := by
  induction xs generalizing ys with
  | nil => rw [List.forall₂_nil_left_iff, List.map_nil]
  | cons x rest ih =>
    have hrest : ∀ ys, List.Forall₂ R rest ys ↔ ys = rest.map g :=
      fun ys => ih fun z hz => h z (List.mem_cons_of_mem _ hz)
    simp only [List.forall₂_cons_left_iff, h x (List.mem_cons_self ..), hrest, List.map_cons]
    exact ⟨fun ⟨_, _, hx, hxs, heq⟩ => by rw [heq, hx, hxs], fun heq => ⟨_, _, rfl, rfl, heq⟩⟩

namespace Schema

section Making

variable {s a : Schema} {d : Dialect} {f : Field} {ts : List Table}

inductive Makes (d : Dialect) : Schema → List Table → Prop where
  | intro (s : Schema) {parts : List (List Table)}
      (h : List.Forall₂ (Makes d) s.auxiliary parts) :
    Makes d s (s.ownTables d ++ parts.flatten)

/-- A model without fields that need a table is made with its own tables alone. -/
theorem makes_iff_of_auxiliary_nil (h : s.auxiliary = []) :
    s.Makes d ts ↔ ts = s.ownTables d := by
  constructor
  · rintro ⟨_, hparts⟩
    rw [h, List.forall₂_nil_left_iff] at hparts
    rw [hparts, List.flatten_nil, List.append_nil]
  · rintro rfl
    have hmakes : s.Makes d (s.ownTables d ++ [].flatten) := .intro s (h ▸ .nil)
    rwa [List.flatten_nil, List.append_nil] at hmakes

/-- No table is made for a table that is made for a field. -/
theorem auxiliary_auxiliaryOf? {models : List String} {model : String}
    (hf : checkField models model f = .ok ()) (ha : auxiliaryOf? model f = some a) :
    a.auxiliary = [] := by
  rw [auxiliary, List.filterMap_eq_nil_iff]
  intro g hg
  obtain ⟨-, hcolumn, -⟩ := mem_ownFields.mp (auxiliary_ownFields hf ha g hg)
  exact auxiliaryOf?_eq_none a.name hcolumn

def fieldTable? (s : Schema) (d : Dialect) (f : Field) : Option Table :=
  (auxiliaryOf? s.name f).map fun a => a.ownTable d

/-- The tables are made for many-to-many relations and for lists. -/
theorem isSome_fieldTable? (s : Schema) (d : Dialect) (f : Field) :
    (s.fieldTable? d f).isSome = true ↔ f.isManyToMany = true ∨ f.isList = true := by
  rw [fieldTable?, Option.isSome_map, auxiliaryOf?, Field.isManyToMany, Field.isList]
  cases f.kind <;> simp

theorem isSome_localized? (s : Schema) (d : Dialect) :
    (s.localized? d).isSome = true ↔ ∃ f ∈ s.fields, f.isLocalized = true := by
  have hfields : s.localizedFields ≠ [] ↔ ∃ f ∈ s.fields, f.isLocalized = true := by
    rw [localizedFields, ne_eq, List.filter_eq_nil_iff]
    simp
  rw [← hfields]
  constructor
  · intro h hnil
    rw [localized?_of_nil hnil] at h
    cases h
  · intro h
    obtain ⟨t, ht⟩ := exists_localized? (d := d) h
    rw [ht]
    rfl

theorem tables_eq (s : Schema) (d : Dialect) : s.tables d =
    s.ownTable d :: ((s.localized? d).toList ++ s.fields.filterMap (s.fieldTable? d)) := by
  have hflat : ∀ a ∈ s.auxiliary, a.ownTables d = [a.ownTable d] := by
    intro a ha
    obtain ⟨f, -, hf⟩ := List.mem_filterMap.mp ha
    exact ownTables_auxiliaryOf? hf
  have hfields : s.auxiliary.map (fun a => a.ownTable d) =
      s.fields.filterMap (s.fieldTable? d) :=
    List.map_filterMap ..
  rw [tables, ownTables, List.flatMap_congr hflat, ← List.map_eq_flatMap, hfields,
    List.cons_append]

end Making

end Schema

/-- What a registered model is made with, down to the last table. -/
theorem Registry.makes_iff {r : Registry} {s : Schema} (hs : s ∈ r.schemas) (d : Dialect)
    (ts : List Table) : s.Makes d ts ↔ ts = s.tables d := by
  have hflat : ∀ a ∈ s.auxiliary, ∀ ts, a.Makes d ts ↔ ts = a.ownTables d := by
    intro a ha ts
    obtain ⟨f, hf, hmade⟩ := List.mem_filterMap.mp ha
    exact Schema.makes_iff_of_auxiliary_nil
      (Schema.auxiliary_auxiliaryOf? (r.checkField_eq_ok hs hf) hmade)
  rw [Schema.tables, List.flatMap_def]
  constructor
  · rintro ⟨_, hparts⟩
    rw [(forall₂_iff_map hflat).mp hparts]
  · rintro rfl
    exact .intro s ((forall₂_iff_map hflat).mpr rfl)

namespace Session

/-- The part of a script that is sent: up to the first command that the server fails, and this
one. -/
def reached (s : Session) (script : List Command) : List Command :=
  script.take (((s.answers script.length).takeWhile Reply.isRows).length + 1)

def answer (s : Session) : Reply :=
  s.replies.head?.getD (.rows {})

theorem answers_succ (s : Session) (c : Command) (n : Nat) :
    s.answers (n + 1) = s.answer :: (s.after [c]).answers n := by
  rw [answers, List.takeD_succ, ← List.drop_one]
  rfl

theorem reached_cons_of_isRows {s : Session} (h : s.answer.isRows = true) (c : Command)
    (rest : List Command) : s.reached (c :: rest) = c :: (s.after [c]).reached rest := by
  rw [reached, List.length_cons, s.answers_succ c, List.takeWhile_cons_of_pos h,
    List.length_cons, List.take_succ_cons]
  rfl

theorem reached_cons_of_failure {s : Session} (h : s.answer.isRows = false) (c : Command)
    (rest : List Command) : s.reached (c :: rest) = [c] := by
  rw [reached, List.length_cons, s.answers_succ c, List.takeWhile_cons_of_neg (by simp [h])]
  rfl

end Session

namespace Run

/-- What a server gives back is a result or a failure. -/
theorem send_cases (c : Command) (s : Session) :
    (∃ result, s.answer = .rows result ∧ send c s = (.ok result, s.after [c])) ∨
      ∃ f, s.answer = .failure f ∧ send c s = (.error f.toFailure, s.after [c]) := by
  obtain ⟨_ | ⟨result | f, rest⟩, sent⟩ := s
  · exact .inl ⟨_, rfl, rfl⟩
  · exact .inl ⟨result, rfl, rfl⟩
  · exact .inr ⟨f, rfl, rfl⟩

/-- A script is sent up to the first failure, and goes through where there is none. -/
theorem sendAll_runs (script : List Command) (s : Session) :
    Issues (sendAll script) s (s.reached script) ∧
      ((sendAll script s).1 = .ok () ↔
        ∀ reply ∈ s.answers script.length, reply.isRows = true) := by
  induction script generalizing s with
  | nil => exact ⟨issues_of_silent rfl, fun _ _ h => (List.not_mem_nil h).elim, fun _ => rfl⟩
  | cons c rest ih =>
    have hsend := issues_send c s
    rw [List.length_cons, s.answers_succ c, List.forall_mem_cons, sendAll]
    rcases send_cases c s with ⟨result, hanswer, hms⟩ | ⟨f, hanswer, hms⟩
    · have hrows : s.answer.isRows = true := by rw [hanswer, Reply.isRows]
      obtain ⟨hissues, hok⟩ := ih (s.after [c])
      rw [Session.reached_cons_of_isRows hrows, bind_of_ok hms, hok]
      exact ⟨hsend.bind hms hissues, fun h => ⟨hrows, h⟩, And.right⟩
    · have hfailed : s.answer.isRows = false := by rw [hanswer, Reply.isRows]
      rw [Session.reached_cons_of_failure hfailed, bind_of_error hms, hfailed]
      refine ⟨hsend.bind_error hms, fun h => ?_, fun h => Bool.noConfusion h.1⟩
      cases h

end Run

section Script

variable {d : Dialect}

def Table.syncTexts (t : Table) (d : Dialect) : List String :=
  [Table.dropSql t.name d, t.createSql d]

def Registry.syncTexts (r : Registry) (d : Dialect) : List String :=
  r.schemas.flatMap fun s => (s.tables d).flatMap fun t => t.syncTexts d

def Statement.bare (sql : String) : Statement :=
  ⟨sql, []⟩

theorem Sql.statement_text (d : Dialect) (s : String) : (Sql.text s).statement d = .bare s := by
  simp [Sql.statement, Sql.text, Sql.write, Statement.bare]

theorem Table.statements_syncCommands (t : Table) (d : Dialect) :
    t.syncCommands.map (Command.statement d) = (t.syncTexts d).map Statement.bare := by
  have hdrop : (Command.drop t.name).statement d = .bare (Table.dropSql t.name d) :=
    Sql.statement_text ..
  have hcreate : (Command.create t).statement d = .bare (t.createSql d) := Sql.statement_text ..
  simp only [syncCommands, syncTexts, List.map_cons, List.map_nil, hdrop, hcreate]

/-- The commands of a sync are these statements. -/
theorem Registry.statements_syncCommands (r : Registry) (d : Dialect) :
    (r.syncCommands d).map (Command.statement d) = (r.syncTexts d).map Statement.bare := by
  simp only [syncCommands, tables, syncTexts, List.flatMap_assoc, List.map_flatMap,
    Table.statements_syncCommands]

/-- They are printed with a line between them. -/
theorem Registry.statementLines_eq (r : Registry) (d : Dialect) :
    CommandLine.statementLines r d = (r.syncTexts d).map (· ++ ";\n\n") := by
  have hlines : CommandLine.statementLines r d =
      ((r.syncCommands d).map (Command.statement d)).map fun s => s.sql ++ ";\n\n" := by
    rw [List.map_map]
    rfl
  rw [hlines, r.statements_syncCommands, List.map_map]
  rfl

namespace CharsetSettings

variable {o : CharsetSettings}

/-- Settings are refused for a name that is none. -/
theorem category_of_alterSql? {g : Failure} (h : o.alterSql? d = .error g) :
    g.category = .validation := by
  have hname : ∀ {name g}, checkName name = .error g → g.category = .validation := by
    intro name g h
    unfold checkName at h
    split at h
    · cases h
    · cases h
      rfl
  unfold alterSql? at h
  split at h
  · rcases bind_eq_error.mp h with hcharset | ⟨_, -, hrest⟩
    · exact hname hcharset
    · rcases bind_eq_error.mp hrest with hcollation | ⟨_, -, hdone⟩
      · exact hname hcollation
      · cases hdone
  · cases h

/-- The command for the character set is the statement itself. -/
theorem commands_of_alterSql? {sql? : Option String} (h : o.alterSql? d = .ok sql?) :
    ∃ first, o.commands d = .ok first ∧
      first.map (Command.statement d) = sql?.toList.map Statement.bare := by
  rw [commands, h]
  cases sql? with
  | none => exact ⟨[], rfl, rfl⟩
  | some sql => exact ⟨[.raw (.bare sql)], rfl, rfl⟩

end CharsetSettings

end Script

/-- A sync runs what is printed. Settings that are refused keep it from sending anything. Else it
sends the statement for the character set, if there is one, and then the printed statements, up to
the first that fails, and succeeds where none fails. Printed are, model by model, the pairs that
drop and create its tables: its own, that of its localized values where it has such, and one for
each of its many-to-many relations and lists; these tables are all that is made for the model, since
none is made for those that are made for its fields. -/
theorem init_runs_script (r : Registry) (d : Dialect) (o : CharsetSettings) (session : Session) :
    (∀ g, o.alterSql? d = .error g → g.category = .validation ∧
      (Store.init r d o session).1 = .error g ∧ Run.Issues (Store.init r d o) session []) ∧
    (∀ sql?, o.alterSql? d = .ok sql? → ∃ script : List Command,
      script.map (Command.statement d) =
        (sql?.toList ++ r.syncTexts d).map Statement.bare ∧
      Run.Issues (Store.init r d o) session (session.reached script) ∧
      ((Store.init r d o session).1 = .ok () ↔
        ∀ reply ∈ session.answers script.length, reply.isRows = true)) ∧
    CommandLine.statementLines r d = (r.syncTexts d).map (· ++ ";\n\n") ∧
    (∀ s ∈ r.schemas, (∀ ts, s.Makes d ts ↔ ts = s.tables d) ∧
      s.tables d =
        s.ownTable d :: ((s.localized? d).toList ++ s.fields.filterMap (s.fieldTable? d)) ∧
      (s.tables d).map Table.name = s.name :: s.derivedNames ∧
      ((s.localized? d).isSome = true ↔ ∃ f ∈ s.fields, f.isLocalized = true) ∧
      ∀ f, (s.fieldTable? d f).isSome = true ↔ f.isManyToMany = true ∨ f.isList = true) := by
  refine ⟨fun g hg => ?_, fun sql? hsql => ?_, r.statementLines_eq d, fun s hs => ?_⟩
  · have hcommands : o.commands d = .error g := by
      rw [CharsetSettings.commands, hg]
      rfl
    rw [Store.init, hcommands]
    exact ⟨CharsetSettings.category_of_alterSql? hg, rfl, Run.issues_of_silent rfl⟩
  · obtain ⟨first, hcommands, hfirst⟩ := CharsetSettings.commands_of_alterSql? hsql
    obtain ⟨hissues, hok⟩ := Run.sendAll_runs (first ++ r.syncCommands d) session
    refine ⟨first ++ r.syncCommands d, ?_, ?_, ?_⟩
    · rw [List.map_append, hfirst, r.statements_syncCommands, List.map_append]
    · rw [Store.init, hcommands]
      exact hissues
    · rw [Store.init, hcommands]
      exact hok
  · exact ⟨r.makes_iff hs d, s.tables_eq d, s.names_tables d, s.isSome_localized? d,
      s.isSome_fieldTable? d⟩

end EntityStore
