import EntityStore.Proofs.Checks
import EntityStore.Proofs.Reading.Command
import EntityStore.Proofs.Session.Operation

/-!
Every statement that an operation sends has as many placeholders as values, in the same order, and
so have the statements of a query. Names, literals and fixed words hold no placeholder that an
engine would see; values are bound where their placeholders are written.
-/
namespace EntityStore

open Reading

/-- The names of a character set and a collation are words. -/
theorem clean_charsetName (d : Dialect) {s : String} (h : CharsetSettings.checkName s = .ok ()) :
    Clean d s := by
  unfold CharsetSettings.checkName at h
  split at h
  · next hname =>
    simp only [CharsetSettings.isName, Bool.and_eq_true, Bool.not_eq_true',
      List.all_eq_true, Bool.or_eq_true, beq_iff_eq] at hname
    refine clean_word ?_ hname.2
    intro hempty
    simp [String.toList_eq_nil_iff.mp hempty] at hname
  · cases h

theorem clean_alterDatabase {o : CharsetSettings} {d : Dialect} {sql : String}
    (h : o.alterSql? d = .ok (some sql)) : Clean d sql := by
  unfold CharsetSettings.alterSql? at h
  split at h
  · next database _ =>
    simp only [bind_eq_ok] at h
    obtain ⟨_, hcharset, _, hcollation, hsql⟩ := h
    cases hsql
    have hopen : CleanThrough .mysql "ALTER DATABASE " := cleanThrough_of_isThrough _ _ rfl
    have hdatabase := hopen.append (clean_quote _ database)
    have hset := (hdatabase.through " CHARACTER SET " rfl).append (clean_charsetName _ hcharset)
    exact (hset.through " COLLATE " rfl).append (clean_charsetName _ hcollation)
  · cases h

/-- The statement that sets the character set has neither placeholders nor values. -/
theorem aligned_charset {o : CharsetSettings} {d : Dialect} {first : List Command}
    (h : o.commands d = .ok first) : ∀ c ∈ first, (c.statement d).Aligned d := by
  obtain ⟨sql?, halter, hfirst⟩ := bind_eq_ok.mp h
  cases sql? with
  | none =>
    cases hfirst
    simp
  | some sql =>
    cases hfirst
    have hclean := (clean_alterDatabase halter).placeholders_eq
    intro c hc
    rw [List.mem_singleton.mp hc]
    exact ⟨by simp [Command.statement, hclean], by simp [Command.statement],
      by simp [Command.statement]⟩

/-- A command on rows is aligned, whatever names and values it is made for. -/
theorem aligned_of_touchesRows {d : Dialect} {c : Command} (h : c.touchesRows = true) :
    (c.statement d).Aligned d := by
  have hclean : Sql.Clean d (c.sql d) := by
    apply clean_command
    · rintro s rfl
      cases h
    · rintro t rfl
      cases h
  cases c with
  | raw s => cases h
  | _ => exact hclean.aligned

theorem aligned_sync (r : Registry) (d : Dialect) :
    ∀ c ∈ r.syncCommands d, (c.statement d).Aligned d := by
  intro c hc
  obtain ⟨t, ht, hsync⟩ := List.mem_flatMap.mp hc
  simp only [Table.syncCommands, List.mem_cons, List.not_mem_nil, or_false] at hsync
  rcases hsync with rfl | rfl
  · exact (Sql.clean_text (clean_dropTable d t.name)).aligned
  · have hcolumns : ∀ column ∈ t.columns, column.HasCleanDefault d := fun column hcolumn =>
      (r.columns_ofField d t ht column hcolumn).hasCleanDefault
    exact (Sql.clean_text (clean_createTable hcolumns)).aligned

/-- Whatever is asked of a store and whatever the server replies, every statement that is sent is
aligned with its values, and so are the two statements of every query. -/
theorem statements_aligned (r : Registry) (d : Dialect) :
    (∀ (op : Operation) (replies : List Reply),
      ∀ c ∈ (op.run r d ⟨replies, []⟩).2.sent, (c.statement d).Aligned d) ∧
    (∀ (q : Query) (s : Selection), q.selection r = .ok s →
      ((s.selectSql d).statement d).Aligned d ∧ ((s.countSql d).statement d).Aligned d) := by
  constructor
  · intro op replies
    refine Run.Sends.sent (Operation.sends_run r d (fun c => aligned_of_touchesRows) ?_ op) replies
    intro o first hfirst c hc
    rcases List.mem_append.mp hc with hcharset | hsync
    · exact aligned_charset hfirst c hcharset
    · exact aligned_sync r d c hsync
  · intro q s _
    exact ⟨(s.clean_selectSql d).aligned, (s.clean_countSql d).aligned⟩

end EntityStore
