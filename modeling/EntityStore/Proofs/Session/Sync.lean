import EntityStore.Proofs.Session.Tables
import EntityStore.Proofs.Storage.TableNames
import Mathlib.Data.List.Flatten

/-!
What a sync leaves behind. It drops each table in front of creating it, and so keeps all the tables
that it makes exactly where their names differ; else one of them is dropped for another, and two
fields or models are left with one table.
-/
namespace EntityStore

def Command.tablesAfter (tables : List Table) : Command → List Table
  | drop name => tables.filter fun t => t.name ≠ name
  | create t => tables ++ [t]
  | _ => tables

def tablesAfterAll (tables : List Table) (cs : List Command) : List Table :=
  cs.foldl Command.tablesAfter tables

section Sync

variable {made : List Table}

def remakes (made : List Table) : List Command :=
  made.flatMap Table.syncCommands

theorem tablesAfterAll_remakes_cons (existing : List Table) (t : Table) (rest : List Table) :
    tablesAfterAll existing (remakes (t :: rest)) =
      tablesAfterAll (existing.filter (fun e => e.name ≠ t.name) ++ [t]) (remakes rest) :=
  rfl

/-- Tables that were there stay where none of the same name is made. -/
theorem tablesAfterAll_remakes_append (made : List Table) : ∀ before existing : List Table,
    tablesAfterAll (before ++ existing) (remakes made) =
      before.filter (fun e => e.name ∉ made.map Table.name) ++
        tablesAfterAll existing (remakes made) := by
  induction made with
  | nil =>
    intro before existing
    simp [tablesAfterAll, remakes]
  | cons t rest ih =>
    intro before existing
    have hboth : (before.filter fun e => e.name ≠ t.name).filter
        (fun e => e.name ∉ rest.map Table.name) =
        before.filter fun e => e.name ∉ (t :: rest).map Table.name := by
      rw [List.filter_filter]
      refine List.filter_congr fun e _ => ?_
      simp only [List.map_cons, List.mem_cons, not_or, Bool.decide_and, ne_eq]
      exact Bool.and_comm ..
    rw [tablesAfterAll_remakes_cons, tablesAfterAll_remakes_cons, List.filter_append,
      List.append_assoc, ih, hboth]

theorem tablesAfterAll_remakes (existing made : List Table) :
    tablesAfterAll existing (remakes made) =
      existing.filter (fun e => e.name ∉ made.map Table.name) ++
        tablesAfterAll [] (remakes made) := by
  have happend := tablesAfterAll_remakes_append made existing []
  rwa [List.append_nil] at happend

theorem length_tablesAfterAll_remakes (made : List Table) :
    (tablesAfterAll [] (remakes made)).length ≤ made.length := by
  induction made with
  | nil => exact Nat.le_refl 0
  | cons t rest ih =>
    have hkept := List.length_filter_le (fun e => decide (e.name ∉ rest.map Table.name)) [t]
    rw [tablesAfterAll_remakes_cons, tablesAfterAll_remakes]
    simp only [List.filter_nil, List.nil_append, List.length_append, List.length_cons,
      List.length_nil] at hkept ⊢
    omega

/-- All tables are kept exactly where their names differ. -/
theorem tablesAfterAll_remakes_eq_iff :
    tablesAfterAll [] (remakes made) = made ↔ (made.map Table.name).Nodup := by
  induction made with
  | nil => simp [tablesAfterAll, remakes]
  | cons t rest ih =>
    rw [tablesAfterAll_remakes_cons, tablesAfterAll_remakes, List.map_cons, List.nodup_cons, ← ih]
    rw [List.filter_nil, List.nil_append, List.filter_singleton]
    by_cases hname : t.name ∈ rest.map Table.name
    · -- the first table is dropped, and then too few are left
      have hlength := length_tablesAfterAll_remakes rest
      refine ⟨fun heq => ?_, fun h => absurd hname h.1⟩
      have hcount := congrArg List.length heq
      simp only [hname, not_true_eq_false, decide_false, cond_false, List.nil_append,
        List.length_cons] at hcount
      omega
    · simp only [hname, not_false_eq_true, decide_true, cond_true, List.cons_append,
        List.nil_append, List.cons.injEq, true_and]

end Sync

/-- A sync makes every table anew. -/
theorem Registry.syncCommands_eq (r : Registry) (d : Dialect) :
    r.syncCommands d = remakes (r.created d) := by
  rw [r.created_eq]
  rfl

/-- Which registries have tables of different names. Exactly then a sync keeps every table that it
makes, whatever tables there were, and then no two fields share a table. Where no model's name
begins with that of another, this comes down to the names of the fields of each model. -/
theorem table_names_distinct_iff (r : Registry) (d : Dialect) :
    (((r.created d).map Table.name).Nodup ↔ r.NamesApart) ∧
    (∀ existing, tablesAfterAll existing (r.syncCommands d) =
      existing.filter (fun t => t.name ∉ (r.created d).map Table.name) ++ r.created d ↔
        r.NamesApart) ∧
    (r.NamesApart → (r.auxiliary.map Schema.name).Nodup) ∧
    ((∀ s ∈ r.schemas, ∀ t ∈ r.schemas, s.name.toList <+: t.name.toList → s.name = t.name) →
      (r.NamesApart ↔ ∀ s ∈ r.schemas, s.FieldsApart)) := by
  have hnames : ((r.created d).map Table.name).Nodup ↔ r.NamesApart := by
    rw [r.created_eq]
    exact r.names_tables_nodup_iff d
  refine ⟨hnames, fun existing => ?_, fun h => ?_, Registry.namesApart_iff_of_no_prefix⟩
  · rw [r.syncCommands_eq, tablesAfterAll_remakes, List.append_cancel_left_eq, ← hnames]
    exact tablesAfterAll_remakes_eq_iff
  · rw [r.names_auxiliary]
    have hall := (r.names_tables_nodup_iff d).mpr h
    rw [r.names_tables] at hall
    refine hall.sublist (List.Sublist.flatMap_right _ fun s _ => ?_)
    exact (List.sublist_append_right ..).trans (List.sublist_cons_self ..)

namespace Sample

def blog : Registry := ⟨[
  { name := "Post",
    fields := [
      { name := "title", type := .string, multilingual := true },
      .ofRelation "tags" "Tag" .manyToMany,
      .ofList "scores" .float] },
  { name := "Tag" }], rfl⟩

/-- A post whose tags are kept in two lists, named alike but for the case of a letter. -/
def tagged : Registry := ⟨[
  { name := "Post", fields := [.ofList "tags" .string, .ofList "Tags" .integer] }], rfl⟩

end Sample

open Sample in
theorem table_names_distinct_of_blog :
    (∀ s ∈ blog.schemas, ∀ t ∈ blog.schemas, s.name.toList <+: t.name.toList →
      s.name = t.name) ∧
    (∀ s ∈ blog.schemas, s.FieldsApart) ∧
    blog.NamesApart ∧ (blog.auxiliary.map Schema.name).Nodup ∧
    (blog.created .mysql).map Table.name =
      ["Post", "Post_translation", "PostHasTags", "PostScoresList", "Tag"] := by
  have hnames : ∀ s ∈ blog.schemas, ∀ t ∈ blog.schemas, s.name.toList <+: t.name.toList →
      s.name = t.name := by decide
  have hfields : ∀ s ∈ blog.schemas, s.FieldsApart := by
    simp only [blog, List.forall_mem_cons, List.not_mem_nil, false_implies, implies_true, and_true]
    exact ⟨⟨by decide, by decide, by decide⟩, ⟨by decide, by decide, by decide⟩⟩
  obtain ⟨-, -, hauxiliary, happly⟩ := table_names_distinct_iff blog .mysql
  have happart : blog.NamesApart := (happly hnames).mpr hfields
  exact ⟨hnames, hfields, happart, hauxiliary happart, by decide⟩

open Sample in
/-- Both lists are given one table, and a sync drops that of the first for that of the second. -/
theorem table_names_clash :
    (tagged.created .sqlite).map Table.name = ["Post", "PostTagsList", "PostTagsList"] ∧
    ¬ ((tagged.created .sqlite).map Table.name).Nodup ∧
    (tablesAfterAll [] (tagged.syncCommands .sqlite)).map Table.name =
      ["Post", "PostTagsList"] := by
  refine ⟨by decide, by decide, by decide⟩

end EntityStore
