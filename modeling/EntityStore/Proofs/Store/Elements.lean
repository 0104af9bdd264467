import EntityStore.Proofs.Stored.Element
import EntityStore.Proofs.Store.Attach
import EntityStore.Proofs.Store.Owner

/-!
The elements of a list between their writing and their reading. The table of a list holds a row for
each element, with the key of its owner; the rows of an owner are removed before the new ones are
put behind those of the others, and they are read in this order.
-/
namespace EntityStore

open Run Store

/-- The rows of a list in the order of their keys: the key of the owner and the element. -/
abbrev ListRows := List (Int × Parameter)

def Parameter.isInt (n : Int) : Parameter → Bool
  | int m => m == n
  | _ => false

namespace ListRows

def row? : List Parameter → Option (Int × Parameter)
  | [.int n, p] => some (n, p)
  | _ => none

def after (table : String) (rows : ListRows) : Command → ListRows
  | .delete name [.equals column p] =>
    if name = table ∧ column = Schema.listOwner then rows.filter fun row => !p.isInt row.1 else rows
  | .insert name columns values _ =>
    if name = table ∧ columns = [Schema.listOwner, Schema.listValue] then
      rows ++ values.filterMap row?
    else rows
  | _ => rows

def record (native : Bool) (row : Int × Parameter) : Record :=
  [(Schema.listOwner, .ofInt row.1), (Schema.listValue, row.2.returned native)]

def answer (native : Bool) (rows : ListRows) (owners : List Parameter) : RowSet where
  rows := (rows.filter fun row => owners.any (Parameter.isInt row.1)).map (record native)

end ListRows

section Keys

variable {key : Json} {n : Int}

theorem Parameter.ofId_of_integer? (h : key.integer? = some n) : ofId key = .int n := by
  unfold Json.integer? at h
  split at h
  · next m =>
    obtain ⟨hfits, heq⟩ := Option.ite_none_right_eq_some.mp h
    obtain rfl := Option.some.inj heq
    exact (ofJson_int m).trans (if_pos hfits.2)
  · next s => rw [ofId, h]
  · cases h

theorem Json.integer?_ofInt_iff (h : key.integer? = some n) (m : Int) :
    (Json.ofInt m).integer? = some n ↔ m = n := by
  have hbounds := integer?_bounds h
  rw [ofInt, integer?]
  constructor
  · intro hm
    exact Option.some.inj (Option.ite_none_right_eq_some.mp hm).2
  · rintro rfl
    exact if_pos hbounds

end Keys

namespace Store

variable {s : Schema} {f : Field} {t : FieldType} {key owner : Json} {n : Int} {items : List Json}

theorem storedElements_arr (h : ∀ v ∈ items, v ≠ .null) : storedElements (.arr items) = items := by
  refine List.filter_eq_self.mpr fun v hv => ?_
  cases v with
  | null => exact absurd rfl (h _ hv)
  | _ => rfl

/-- The elements stand behind the rows of the other owners, in their order. -/
theorem after_listWrites (howner : owner.integer? = some n) (hitems : ∀ v ∈ items, v ≠ .null)
    (rows : ListRows) :
    (listWrites s owner (f, .arr items)).foldl (ListRows.after (Schema.listTable s.name f.name))
      rows = rows.filter (fun row => row.1 != n) ++ items.map fun v => (n, .ofJson v) := by
  have hdelete : ListRows.after (Schema.listTable s.name f.name) rows (listDelete s owner f) =
      rows.filter fun row => row.1 != n := by
    rw [listDelete, Parameter.ofId_of_integer? howner]
    refine (if_pos ⟨rfl, rfl⟩).trans (List.filter_congr fun row _ => ?_)
    rw [Parameter.isInt, bne, BEq.comm]
  rw [listWrites, storedElements_arr hitems, List.foldl_cons, hdelete,
    Parameter.ofId_of_integer? howner]
  cases items with
  | nil => simp
  | cons v rest =>
    refine (if_pos ⟨rfl, rfl⟩).trans ?_
    rw [List.filterMap_map]
    simp [Function.comp_def, ListRows.row?]

/-- The elements of an owner are read in the order of the rows, by the type of the list. -/
theorem elementsFor_answer (hf : f.items = some t) (hkey : key.integer? = some n)
    {owners : List Parameter} (hmem : .int n ∈ owners) (native : Bool) (rows : ListRows) :
    (Attachment.ofList s f).elementsFor n (rows.answer native owners) =
      (rows.filter fun row => row.1 == n).map fun row => t.coerce (row.2.returned native) := by
  have howner : ∀ row : Int × Parameter,
      (((Attachment.ofList s f).owner (ListRows.record native row)).integer? == some n) =
        (row.1 == n) := by
    intro row
    rw [Bool.eq_iff_iff, beq_iff_eq, beq_iff_eq]
    exact Json.integer?_ofInt_iff hkey row.1
  have helement : ∀ row : Int × Parameter,
      (Attachment.ofList s f).element (ListRows.record native row) =
        t.coerce (row.2.returned native) := by
    intro row
    simp only [Attachment.ofList, listElement, hf]
    rfl
  rw [Attachment.elementsFor, ListRows.answer, List.filter_map, List.map_map, List.filter_filter]
  simp only [Function.comp_def, howner, helement]
  refine congrArg _ (List.filter_congr fun row _ => ?_)
  rw [Bool.and_eq_left_iff_imp, beq_iff_eq]
  rintro rfl
  exact List.any_eq_true.mpr ⟨_, hmem, beq_self_eq_true row.1⟩

/-- What is read for an owner behind the writing of an array is what was bound for each element, in
the order of the array. -/
theorem elementsOf_written (hf : f.items = some t) (howner : owner.integer? = some n)
    (hitems : ∀ v ∈ items, v ≠ .null) (hkey : key.integer? = some n) {keys : List Json}
    (hmem : key ∈ keys) (native : Bool) (rows : ListRows) :
    let stored := (listWrites s owner (f, .arr items)).foldl
      (ListRows.after (Schema.listTable s.name f.name)) rows
    elementsOf ((Attachment.ofList s f).gathered (stored.answer native (keys.map .ofId)))
      (some key) = items.map (t.readElement native) := by
  intro stored
  have hstored : stored = rows.filter (fun row => row.1 != n) ++
      items.map fun v => (n, .ofJson v) := after_listWrites howner hitems rows
  have howned : .int n ∈ keys.map Parameter.ofId :=
    List.mem_map.mpr ⟨key, hmem, Parameter.ofId_of_integer? hkey⟩
  have hothers : (rows.filter fun row => row.1 != n).filter (fun row => row.1 == n) = [] := by
    rw [List.filter_filter, List.filter_eq_nil_iff]
    intro row _
    simp
  have hown : (items.map fun v => (n, Parameter.ofJson v)).filter (fun row => row.1 == n) =
      items.map fun v => (n, .ofJson v) := by
    refine List.filter_eq_self.mpr fun row hrow => ?_
    obtain ⟨v, -, rfl⟩ := List.mem_map.mp hrow
    exact beq_self_eq_true n
  rw [elementsOf_gathered _ _ hkey, elementsFor_answer hf hkey howned, hstored,
    List.filter_append, hothers, hown, List.nil_append, List.map_map]
  rfl

/-- The elements of an owner that is among the keys are read with one statement. -/
theorem fetchList_of_mem {keys : List Json} (hmem : key ∈ keys) (result : RowSet)
    (replies : List Reply) (sent : List Command) :
    fetchList s f keys ⟨.rows result :: replies, sent⟩ =
      (.ok ((Attachment.ofList s f).gathered result),
        ⟨replies, .elements (Schema.listTable s.name f.name) (keys.map .ofId) :: sent⟩) := by
  have hkeys : ¬ keys.isEmpty = true := by
    rw [List.isEmpty_iff]
    exact List.ne_nil_of_mem hmem
  rw [fetchList, if_neg hkeys]
  rfl

end Store

/-- A list of an accepted registry tells the type of its elements, which is one of scalars. -/
theorem Registry.list_items (r : Registry) {s : Schema} (hs : s ∈ r.schemas) {f : Field}
    (hf : f ∈ s.fields) {t : FieldType} (hkind : f.kind = .list t) :
    f.items = some t := by
  have hchecked := r.checkField_eq_ok hs hf
  unfold Field.kind at hkind
  split at hkind
  · split at hkind <;> cases hkind
  · next htype =>
    cases hkind
    cases hitems : f.items with
    | some t => rfl
    | none =>
      rw [Schema.checkField, htype, hitems] at hchecked
      cases hchecked
  · cases hkind

/-- An array that has been written for an owner is read back in its order, each element as what was
bound for it, and so exactly where each of the elements is kept. All are but for integers that are
bound as doubles, and in lists of objects for truth values that the engine holds as numbers, for
texts that are documents, and for containers that are not read as they are written. -/
theorem list_elements_kept_iff (r : Registry) {s : Schema} (hs : s ∈ r.schemas) {f : Field}
    (hf : f ∈ s.fields) {t : FieldType} (hkind : f.kind = .list t) (native : Bool)
    {items : List Json} (hitems : ∀ v ∈ items, t.Holds v) {owner key : Json} {n : Int}
    (howner : owner.integer? = some n) (hkey : key.integer? = some n) {keys : List Json}
    (hmem : key ∈ keys) (rows : ListRows) {session : Session}
    (hok : (updateList s.name owner f.name (.arr items) session).1 = .ok ())
    (replies : List Reply) (sent : List Command) :
    let table := Schema.listTable s.name f.name
    (∃ writes, Issues (updateList s.name owner f.name (.arr items)) session writes ∧
      let stored := writes.foldl (ListRows.after table) rows
      let answer := stored.answer native (keys.map .ofId)
      ∃ gathered, fetchList s f keys ⟨.rows answer :: replies, sent⟩ =
          (.ok gathered, ⟨replies, .elements table (keys.map .ofId) :: sent⟩) ∧
        elementsOf gathered (some key) = items.map (t.readElement native) ∧
        (elementsOf gathered (some key) = items ↔ ∀ v ∈ items, t.Keeps native v)) ∧
    (∀ v ∈ items, t.readElement native v = v ↔ t.Keeps native v) ∧
    (t ≠ .object → ∀ v ∈ items,
      (t.Keeps native v ↔ ∀ m, v = .num (.int m) → m < 0x8000000000000000)) ∧
    ∀ v ∈ items, v.IsWhole → 0 < v.depth → (t.Keeps native v ↔ v.depth ≤ Json.maxDepth) := by
  intro table
  have hkept : ∀ v ∈ items, t.readElement native v = v ↔ t.Keeps native v := fun v hv =>
    FieldType.readElement_eq_iff (hitems v hv)
  have hnull : ∀ v ∈ items, v ≠ .null := by
    rintro v hv rfl
    exact hitems _ hv
  have hread := elementsOf_written (s := s) (r.list_items hs hf hkind) howner hnull hkey hmem native
    rows
  refine ⟨⟨_, issues_updateList (e := (f, .arr items)) hok, _, fetchList_of_mem hmem .., hread, ?_⟩,
    hkept, ?_, ?_⟩
  · have hself : items.map (t.readElement native) = items ↔
        ∀ v ∈ items, t.readElement native v = v := by
      simpa using @List.map_inj_left _ _ items (t.readElement native) id
    rw [hread, hself]
    exact forall₂_congr hkept
  · exact fun ht v hv => FieldType.keeps_iff_of_ne_object (hitems v hv) ht
  · exact fun v _ hwhole hdepth => hwhole.keeps_iff hdepth

namespace Sample

def parts : Field := .ofList "parts" .object

def kit : Schema := { name := "Kit", fields := [parts] }

def kits : Registry := ⟨[kit], rfl⟩

def kitParts : List Json := [.str "a b", .obj [("n", .ofInt 1)], .bool false]

end Sample

open Sample in
/-- The parts of a kit take the place of an old one, apart from the part of another kit. -/
theorem list_elements_kept_of_kit :
    ∃ writes gathered,
      Issues (updateList kit.name (.ofInt 1) parts.name (.arr kitParts)) {} writes ∧
      let stored := writes.foldl (ListRows.after "KitPartsList")
        [(1, .text "old"), (2, .text "other")]
      (fetchList kit parts [.ofInt 2, .str "1"]
        ⟨[.rows (stored.answer true [.int 2, .int 1])], []⟩).1 = .ok gathered ∧
      elementsOf gathered (some (.str "1")) = kitParts := by
  have hitems : ∀ v ∈ kitParts, FieldType.object.Holds v := by
    simp [kitParts, FieldType.Holds]
  have hkept : ∀ v ∈ kitParts, FieldType.object.Keeps true v := by
    simp only [kitParts, List.forall_mem_cons]
    exact ⟨fun _ => ⟨by cbv, by cbv⟩, by unfold FieldType.Keeps; cbv, fun _ => rfl,
      List.forall_mem_nil _⟩
  have hkit : kit ∈ kits.schemas := List.mem_singleton_self _
  have hparts : parts ∈ kit.fields := List.mem_singleton_self _
  have howner : (Json.ofInt 1).integer? = some 1 := rfl
  have hkey : (Json.str "1").integer? = some 1 := by decide
  have hmem : Json.str "1" ∈ [.ofInt 2, .str "1"] := List.mem_cons_of_mem _ List.mem_cons_self
  have hok : (updateList kit.name (.ofInt 1) parts.name (.arr kitParts) {}).1 = .ok () := rfl
  obtain ⟨⟨writes, hwrites, gathered, hread, -, hsame⟩, -⟩ := list_elements_kept_iff kits hkit
    hparts rfl true hitems howner hkey hmem [(1, .text "old"), (2, .text "other")] hok [] []
  exact ⟨writes, gathered, hwrites, congrArg Prod.fst hread, hsame.mpr hkept⟩

open Sample in
/-- A text that is written as an element of a list of objects is read as the number that it is a
document of. -/
theorem list_text_read_as_document :
    FieldType.object.Holds (.str "5") ∧
    Issues (updateList kit.name (.ofInt 1) parts.name (.arr [.str "5"])) {}
      [.delete "KitPartsList" [.equals "fk" (.int 1)],
        .insert "KitPartsList" ["fk", "value"] [[.int 1, .text "5"]] none] ∧
    (∀ native, (Parameter.text "5").returned native = .str "5") ∧
    ∃ gathered, (fetchList kit parts [.ofInt 1]
        ⟨[.rows { rows := [[("fk", .ofInt 1), ("value", .str "5")]] }], []⟩).1 = .ok gathered ∧
      elementsOf gathered (some (.ofInt 1)) = [.ofInt 5] ∧ Json.ofInt 5 ≠ .str "5" := by
  refine ⟨.inr (.inr rfl), rfl, fun _ => rfl, _, rfl, ?_, nofun⟩
  cbv

end EntityStore
