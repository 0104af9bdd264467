import EntityStore.Proofs.Session.Operation

/-!
What the statements of a store name, against the tables that it makes. Whatever is asked of a store
and whatever the server replies, a statement that reads or writes rows names tables that a sync
makes, and columns that it makes them with.
-/
namespace EntityStore

open Reading

def Command.created? : Command → Option Table
  | create t => some t
  | _ => none

def Registry.created (r : Registry) (d : Dialect) : List Table :=
  (r.syncCommands d).filterMap Command.created?

theorem Table.created_syncCommands (t : Table) :
    t.syncCommands.filterMap Command.created? = [t] :=
  rfl

/-- A sync makes every table once, in the order of the models. -/
theorem Registry.created_eq (r : Registry) (d : Dialect) : r.created d = r.tables d := by
  unfold Registry.created Registry.syncCommands
  rw [List.filterMap_flatMap]
  simp only [Table.created_syncCommands]
  exact List.flatMap_singleton' _

/-- What the statement of an admitted command mentions is made. -/
theorem Registry.Admits.mentions_fit {r : Registry} (hkeys : r.HoldsKeys)
    (halias : r.AvoidsAliases) (d : Dialect) {c : Command} (h : r.Admits c) :
    Mention.Fits (r.created d) [] (.scope (mentions d (c.statement d).sql)) := by
  have hfits := h.fits (d := d) hkeys halias
  have hrows := h.touchesRows
  have hread : mentions d ((c.sql d).statement d).sql = c.mentions d :=
    (mentions_command d hrows).mentions_eq
  have hstatement : c.statement d = (c.sql d).statement d := by
    cases c with
    | raw s => cases hrows
    | _ => rfl
  rw [hstatement, hread, r.created_eq]
  exact hfits

/-- No command on the whole of the database reads or writes rows. -/
theorem not_touchesRows_init {r : Registry} {d : Dialect} {o : CharsetSettings}
    {first : List Command} (h : o.commands d = .ok first) :
    ∀ c ∈ first ++ r.syncCommands d, c.touchesRows = false := by
  intro c hc
  rcases List.mem_append.mp hc with hcharset | hsync
  · obtain ⟨sql?, -, hfirst⟩ := bind_eq_ok.mp h
    cases sql? with
    | none =>
      cases hfirst
      cases hcharset
    | some sql =>
      cases hfirst
      rw [List.mem_singleton.mp hcharset]
      rfl
  · obtain ⟨t, -, hmade⟩ := List.mem_flatMap.mp hsync
    simp only [Table.syncCommands, List.mem_cons, List.not_mem_nil, or_false] at hmade
    rcases hmade with rfl | rfl <;> rfl

/-- Where every key is generated or held in the own table of its model and no model goes by the name
of an alias, whatever is asked of a store and whatever the server replies, all tables and columns
that are named by a statement on rows are those of tables that a sync makes. Lists are replaced only
where a model has them. -/
theorem mentioned_tables_created {r : Registry} (hkeys : r.HoldsKeys) (halias : r.AvoidsAliases)
    (d : Dialect) {op : Operation}
    (hlists : ∀ model owner field values, op = .updateList model owner field values →
      ∃ s ∈ r.schemas, s.name = model ∧ ∃ f ∈ s.fields, f.name = field ∧ f.isList = true)
    (replies : List Reply) :
    ∀ c ∈ (op.run r d ⟨replies, []⟩).2.sent, c.touchesRows = true →
      Mention.Fits (r.created d) [] (.scope (mentions d (c.statement d).sql)) := by
  have hadmits : ∀ c, r.Admits c → c.touchesRows = true →
      Mention.Fits (r.created d) [] (.scope (mentions d (c.statement d).sql)) :=
    fun c hc _ => hc.mentions_fit hkeys halias d
  refine Run.Sends.sent (op.sends_run_of_admits r d hadmits ?_ ?_) replies
  · intro model owner field values hop
    obtain ⟨s, hs, rfl, f, hf, rfl, hlist⟩ := hlists model owner field values hop
    exact (Store.sends_updateList_of_isList hs hf hlist owner values).mono hadmits
  · intro o first hfirst c hc hrows
    rw [not_touchesRows_init hfirst c hc] at hrows
    cases hrows

namespace Sample

def book : Schema where
  name := "Book"
  fields := [
    { name := "title", type := .string, multilingual := true },
    .ofRelation "sequel" "Book" .oneToOne,
    .ofRelation "sources" "Book" .manyToMany,
    .ofList "tags" .string]

def books : Registry := ⟨[book], rfl⟩

def retagged : Operation :=
  .updateList "Book" (.str "1") "tags" (.arr [.str "new"])

end Sample

open Sample in
theorem mentioned_tables_created_of_retagged :
    books.HoldsKeys ∧ books.AvoidsAliases ∧
    (retagged.run books .sqlite ⟨[], []⟩).2.sent.length = 2 ∧
    ∀ c ∈ (retagged.run books .sqlite ⟨[], []⟩).2.sent, c.touchesRows = true →
      Mention.Fits (books.created .sqlite) []
        (.scope (mentions .sqlite (c.statement .sqlite).sql)) := by
  have hkeys : books.HoldsKeys := by
    intro s hs f hf
    rw [List.mem_singleton.mp hs] at hf
    cases hf
  have halias : books.AvoidsAliases := by
    intro s hs
    rw [List.mem_singleton.mp hs]
    decide
  refine ⟨hkeys, halias, rfl, mentioned_tables_created hkeys halias .sqlite ?_ []⟩
  intro model owner field values hop
  cases hop
  exact ⟨book, List.mem_cons_self .., rfl, .ofList "tags" .string, by simp [book], rfl, rfl⟩

end EntityStore
