import EntityStore.Json.Printer
import EntityStore.Session
import EntityStore.Text.Basic

/-!
Keys of rows: which values can be keys, which rows belong to one key, and the keys that an INSERT
made.
-/
namespace EntityStore

namespace Json

/-- Whether the value can be the key of a stored row: a positive integer or its numeral. -/
def isKey : Json → Bool
  | .num (.int n) => 0 < n
  | .str s =>
    match Text.readTrimmedInt64? s with
    | some n => 0 < n
    | none => false
  | _ => false

def keyText : Json → String
  | .str s =>
    match Text.readTrimmedInt64? s with
    | some n => toString n
    | none => s
  | v => v.text

end Json

namespace RowSet

/-- As many words in a row from the given one on. The count is taken for a signed word, so that half
of the counts give none. -/
def keysFrom (first : Int64) (count : UInt64) : List Json :=
  (List.range count.toInt64.toNatClampNeg).map fun i => Json.ofInt (first + Int64.ofNat i).toInt

/-- Words that stay in range are consecutive integers. -/
theorem keysFrom_eq {first : Int64} {count : UInt64}
    (hcount : (count.toNat : Int) ≤ Int64.maxValue.toInt)
    (hlast : first.toInt + count.toNat ≤ Int64.maxValue.toInt + 1) :
    keysFrom first count =
      (List.range count.toNat).map fun (i : Nat) => Json.ofInt (first.toInt + i) := by
  rw [Int64.toInt_maxValue] at hcount hlast
  have hlow := first.le_toInt
  have hsigned : count.toInt64.toInt = count.toNat := by
    rw [← UInt64.ofNat_toNat (x := count), UInt64.toInt64_ofNat',
      Int64.toInt_ofNat_of_lt (by omega), UInt64.ofNat_toNat]
  have hclamp : count.toInt64.toNatClampNeg = count.toNat := by
    rw [Int64.toNatClampNeg, hsigned, Int.toNat_natCast]
  rw [keysFrom, hclamp]
  refine List.map_congr_left fun i hi => ?_
  have hlt : i < count.toNat := List.mem_range.mp hi
  have hword : (Int64.ofNat i).toInt = i := Int64.toInt_ofNat_of_lt (by omega)
  rw [Int64.toInt_add, hword, Int.bmod_eq_of_le (by omega) (by omega)]

def insertedKeys (result : RowSet) (key : String) : List Json :=
  if result.rows.isEmpty then
    match result.insertId with
    | some first => keysFrom (.ofInt first) (.ofNat result.affected)
    | none => []
  else result.rows.filterMap (Record.get? key)

def column (result : RowSet) (name : String) : List Json :=
  result.rows.filterMap (Record.get? name)

end RowSet

end EntityStore
