import EntityStore.Proofs.Json.Parser
import EntityStore.Server.Pool
import EntityStore.Stored

/-!
Objects that are stored and read back. A value bound to a column of objects travels as the bytes of
its text, which a cell gives back as this text and the type of the field as the value.
-/
namespace EntityStore

namespace Server

theorem toList_loop (b : ByteArray) (i : Nat) (done : List UInt8) :
    ByteArray.toList.loop b i done = done.reverse ++ b.data.toList.drop i := by
  fun_induction ByteArray.toList.loop b i done with
  | case1 i done hlt ih =>
    have hlist : i < b.data.toList.length := by simpa using hlt
    have hget : b.get! i = b.data.toList[i] := by
      rw [Array.getElem_toList]
      exact getElem!_pos b.data i hlt
    rw [ih, List.drop_eq_getElem_cons hlist, hget, List.reverse_cons, List.append_assoc]
    rfl
  | case2 i done hge =>
    have hnone : b.data.toList.drop i = [] :=
      List.drop_eq_nil_of_le (by simpa using Nat.le_of_not_lt hge)
    rw [hnone, List.append_nil]

/-- The bytes of a text are read as this text. -/
theorem textOf?_toUTF8 (s : String) : textOf? s.toUTF8.toList = some s := by
  have hbytes : s.toUTF8.toList = s.toByteArray.data.toList := toList_loop s.toUTF8 0 []
  rw [textOf?, hbytes, Array.toArray_toList, String.fromUTF8?, dif_pos s.isValidUTF8]
  rfl

theorem bytesToJson_toUTF8 (s : String) : bytesToJson s.toUTF8.toList = .str s := by
  rw [bytesToJson, textOf?_toUTF8]

end Server

/-- The text of a value is stored text of this value. -/
theorem Json.IsWhole.ofStoredText_text {v : Json} (hv : v.IsWhole) (hdepth : v.depth ≤ maxDepth) :
    ofStoredText v.text = v := by
  rw [ofStoredText, hv.parse?_text hdepth]

theorem Field.parameter_object {f : Field} (hf : f.type = .object) (v : Json) :
    f.parameter v = if v.isNull then .null else .bytes v.text.toUTF8 := by
  rw [parameter, if_pos hf]
  cases v <;> rfl

/-- A value of a field of objects is bound as null where it is null, and otherwise as bytes that are
read back as this value. So the cell of its parameter is always read back as the value. -/
theorem object_survives_storage {f : Field} (hf : f.type = .object) {v : Json} (hv : v.IsWhole)
    (hdepth : v.depth ≤ Json.maxDepth) :
    (v.isNull = true → f.parameter v = .null) ∧
    (v.isNull = false → ∃ bytes, f.parameter v = .bytes bytes ∧
      f.type.coerce (Server.bytesToJson bytes.toList) = v) ∧
    f.type.coerce (Server.CellType.bytea.read (Server.wireForm (f.parameter v))) = v := by
  have hread : f.type.coerce (Server.bytesToJson v.text.toUTF8.toList) = v := by
    rw [hf, Server.bytesToJson_toUTF8]
    exact hv.ofStoredText_text hdepth
  rw [f.parameter_object hf]
  cases hnull : v.isNull with
  | true =>
    have hv : v = .null := by
      cases v with
      | null => rfl
      | _ => cases hnull
    subst hv
    rw [hf]
    exact ⟨fun _ => rfl, fun hsome => absurd hsome (by decide), rfl⟩
  | false => exact ⟨fun h => absurd h (by decide), fun _ => ⟨_, rfl, hread⟩, hread⟩

namespace Sample

def settings : Json :=
  .obj [("note", .str "a \"b\"\n"), ("size", .ofInt (-3)), ("tags", .arr [.null, .str "[1]"])]

end Sample

open Sample in
theorem object_survives_storage_of_settings :
    let f : Field := { name := "data", type := .object }
    f.type = .object ∧ settings.IsWhole ∧ settings.depth ≤ Json.maxDepth ∧
    f.type.coerce (Server.CellType.bytea.read (Server.wireForm (f.parameter settings))) =
      settings := by
  intro f
  have hwhole : settings.IsWhole := by
    refine .obj (by unfold Record.IsOrdered; decide) ?_
    simp only [List.forall_mem_cons, List.not_mem_nil, false_implies, implies_true, and_true]
    refine ⟨.str _, .int (by decide) (by decide), .arr ?_⟩
    simp only [List.forall_mem_cons, List.not_mem_nil, false_implies, implies_true, and_true]
    exact ⟨.null, .str _⟩
  have hdepth : settings.depth ≤ Json.maxDepth := by decide
  exact ⟨rfl, hwhole, hdepth, (object_survives_storage (f := f) rfl hwhole hdepth).2.2⟩

end EntityStore
