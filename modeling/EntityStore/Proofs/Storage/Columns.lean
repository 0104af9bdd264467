import EntityStore.Proofs.Checks
import EntityStore.Table
import Mathlib.Data.List.Nodup

/-!
The columns of a model's tables. A field has a column exactly where its kind says so, and the
column stands in the own table or in that of the localized values, under the name of the field.
-/
namespace EntityStore

namespace Field

variable {f : Field}

/-- A field that passes its check is no relation without a target. -/
theorem kind_ne_scalar_relation {models : List String} {model : String}
    (h : Schema.checkField models model f = .ok ()) : f.kind ≠ .scalar .relation := by
  intro hkind
  unfold kind at hkind
  split at hkind
  · split at hkind <;> cases hkind
  · cases hkind
  · next _ hnone =>
    have htype : f.type = .relation := FieldKind.scalar.inj hkind
    cases hrelation : f.relation with
    | none => simp [Schema.checkField, htype, hrelation] at h
    | some r => exact hnone r htype hrelation

theorem isSome_columnWith? (f : Field) (generated : Bool) (d : Dialect) :
    (f.columnWith? generated d).isSome = f.hasColumn := by
  unfold columnWith? columnType? hasColumn
  rw [Option.isSome_map]
  cases f.kind with
  | scalar t => cases t <;> rfl
  | _ => rfl

/-- The column of a field, in whichever table, has the name of the field. -/
theorem exists_columnWith? (h : f.hasColumn = true) (generated : Bool) (d : Dialect) :
    ∃ c, f.columnWith? generated d = some c ∧ c.name = f.name := by
  rw [← isSome_columnWith? f generated d, Option.isSome_iff_exists] at h
  obtain ⟨c, hc⟩ := h
  obtain ⟨t, -, rfl⟩ := Option.map_eq_some_iff.mp hc
  exact ⟨_, hc, rfl⟩

theorem columnWith?_eq_none (h : f.hasColumn = false) (generated : Bool) (d : Dialect) :
    f.columnWith? generated d = none := by
  rw [← isSome_columnWith? f generated d] at h
  exact Option.isSome_eq_false_iff.mp h |> Option.isNone_iff_eq_none.mp

theorem column?_eq_none (h : f.hasColumn = false) (d : Dialect) : f.column? d = none :=
  columnWith?_eq_none h f.primary d

theorem names_columnWith? (f : Field) (generated : Bool) (d : Dialect) :
    (f.columnWith? generated d).toList.map Column.name =
      if f.hasColumn then [f.name] else [] := by
  cases hcolumn : f.hasColumn with
  | false => simp [columnWith?_eq_none hcolumn]
  | true =>
    obtain ⟨c, hc, hname⟩ := exists_columnWith? hcolumn generated d
    simp [hc, hname]

theorem hasColumn_of_isLocalized (h : f.isLocalized = true) : f.hasColumn = true := by
  simp only [isLocalized, Bool.and_eq_true] at h
  obtain ⟨-, hkind⟩ := h
  unfold hasColumn
  split at hkind
  · next t hscalar => simpa [hscalar] using hkind
  · cases hkind

end Field

namespace Schema

variable {s : Schema} {f : Field} {d : Dialect} {c : Column}

theorem mem_ownTable (hf : f ∈ s.fields) (hown : f.isLocalized = false)
    (hc : f.column? d = some c) : c ∈ (s.ownTable d).columns := by
  refine List.mem_append_right _ (List.mem_filterMap.mpr ⟨f, ?_, hc⟩)
  simp [hf, hown]

theorem mem_localized? (hf : f ∈ s.fields) (hlocalized : f.isLocalized = true)
    (hc : f.column? d = some c) : ∃ t, s.localized? d = some t ∧ c ∈ t.columns := by
  have hmem : c ∈ (s.fields.filter Field.isLocalized).filterMap fun f => f.column? d :=
    List.mem_filterMap.mpr ⟨f, by simp [hf, hlocalized], hc⟩
  unfold localized?
  split
  · next hnil =>
    rw [hnil] at hmem
    cases hmem
  · exact ⟨_, rfl, List.mem_append_right _ hmem⟩

theorem field?_mem {n : String} (h : s.field? n = some f) : f ∈ s.fields :=
  List.mem_of_find?_eq_some h

/-- Where names differ, a field is found under its name. -/
theorem field?_name_self (hnames : (s.fields.map Field.name).Nodup) (hf : f ∈ s.fields) :
    s.field? f.name = some f := by
  obtain ⟨g, hg⟩ : ∃ g, s.field? f.name = some g := by
    rw [← Option.isSome_iff_exists, field?, List.find?_isSome]
    exact ⟨f, hf, by simp⟩
  have hname : g.name = f.name := by simpa using List.find?_some hg
  rw [hg, List.inj_on_of_nodup_map hnames (field?_mem hg) hf hname]

end Schema

end EntityStore
