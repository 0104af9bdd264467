import EntityStore.Proofs.Storage.TableColumns
import EntityStore.Proofs.Store.Attach
import EntityStore.Proofs.Store.Owner
import EntityStore.Proofs.Store.Removal

/-!
Writes to all rows that match a condition. The keys of these rows are read first, and then nothing
is written but rows with these keys, and nothing at all where there are none. The condition may be
left out where it names nothing that is stored; that a row has one of the keys never is.
-/
namespace EntityStore

open Run

section Keys

variable {r : Registry} {s : Schema} {left : Expression} {keys : List Json}

/-- The key can be compared unless a field of its name has a table of its own. -/
theorem Registry.exists_key_expression (hs : r.schema? s.name = some s)
    (hkey : ∀ f ∈ s.fields, f.name = s.primaryKey → f.isList = false ∧ f.isManyToMany = false) :
    ∃ left, r.expression? s.name s.primaryKey = some left := by
  rw [Registry.expression?, hs, Option.bind_some]
  cases hfield : s.field? s.primaryKey with
  | none =>
    have hnone : s.primaryField? = none := by
      cases hprimary : s.primaryField? with
      | none => rfl
      | some f =>
        have hname : s.primaryKey = f.name := by rw [Schema.primaryKey, hprimary]
        have hno := List.find?_eq_none.mp hfield f (Schema.primaryField?_mem hprimary).1
        exact absurd (beq_iff_eq.mpr hname.symm) hno
    exact ⟨.column s.name s.primaryKey, by simp [Schema.expression?, hfield, hnone]⟩
  | some f =>
    have hmem := Schema.field?_mem hfield
    have hname := Query.field?_name hfield
    have hcolumn : f.hasColumn = true := by
      obtain ⟨hlist, hlink⟩ := hkey f hmem hname
      have hne := Field.kind_ne_scalar_relation
        (r.checkField_eq_ok (Registry.schema?_mem hs) hmem)
      unfold Field.hasColumn
      unfold Field.isList at hlist
      unfold Field.isManyToMany at hlink
      cases hkind : f.kind <;> simp_all
    rw [← hname] at hfield ⊢
    rw [Schema.expression?_of_field hfield, hcolumn]
    cases f.isLocalized <;> simp

def Predicate.isAmong (left : Expression) (keys : List Json) : Predicate :=
  .connect .or (keys.map fun k => .compare left .equal (.value (.ofId k)))

theorem Registry.comparand_key (hs : r.schema? s.name = some s) (k : Json) :
    r.comparand s.name s.primaryKey k = .ofId k := by
  simp [comparand, hs, Schema.holdsIntegers]

theorem Condition.resolveAll_keys (hs : r.schema? s.name = some s)
    (hleft : r.expression? s.name s.primaryKey = some left) (keys : List Json) :
    resolveAll r s.name (keys.map (equals s.primaryKey)) =
      keys.map fun k => .compare left .equal (.value (.ofId k)) := by
  induction keys with
  | nil => rfl
  | cons k rest ih =>
    have hfirst : (equals s.primaryKey k).resolve? r s.name =
        some (.compare left .equal (.value (.ofId k))) := by
      simp [equals, comparison, resolve?, operand?, hleft, Registry.comparand_key hs]
    rw [List.map_cons, resolveAll, hfirst, ih]
    rfl

/-- That the key is one of some keys is never left out. -/
theorem Condition.resolve?_any_keys (hs : r.schema? s.name = some s)
    (hleft : r.expression? s.name s.primaryKey = some left) (hkeys : keys ≠ []) :
    (any (keys.map (equals s.primaryKey))).resolve? r s.name = some (.isAmong left keys) := by
  obtain ⟨k, rest, rfl⟩ := List.exists_cons_of_ne_nil hkeys
  rw [any, resolve?, Option.getD_none, resolveAll_keys hs hleft]
  rfl

end Keys

/-- The selection reads rows of this one model, and of these every one with one of the keys. -/
structure Selection.ReadsKeys (model : String) (left : Expression) (keys : List Json)
    (selected : Selection) : Prop where
  table : selected.table = model
  joins : selected.clauses.joins = []
  conditions : selected.clauses.conditions = [.isAmong left keys]
  page : selected.page = none

namespace Run

/-- A server without failures carries everything out. -/
theorem sendAll_of_isRows {s : Session} (h : ∀ reply ∈ s.replies, reply.isRows = true)
    (cs : List Command) : sendAll cs s = (.ok (), s.after cs.reverse) := by
  induction cs generalizing s with
  | nil => rfl
  | cons c rest ih =>
    rw [sendAll, bind_of_ok (send_of_isRows h c), ih (isRows_after h [c]), List.reverse_cons,
      Session.after_append]

end Run

namespace Store

variable {α : Type} {r : Registry} {s : Schema} {left : Expression} {keys : List Json}
  {session : Session}

section Reads

def keysQuery (s : Schema) (keys : List Json) : Query where
  options := { orderBy := [{ field := s.primaryKey }] }
  model := s.name
  condition := some (.any (keys.map (Condition.equals s.primaryKey)))

theorem exists_keysSelection (hs : r.schema? s.name = some s)
    (hleft : r.expression? s.name s.primaryKey = some left) (hkeys : keys ≠ []) :
    ∃ reread, (keysQuery s keys).selection r = .ok reread ∧ reread.ReadsKeys s.name left keys := by
  have hrequired := Registry.require_eq_ok.mpr hs
  have hcondition := Condition.resolve?_any_keys hs hleft hkeys
  obtain ⟨reread, hreread⟩ := exists_selection (q := keysQuery s keys) hs rfl rfl
  refine ⟨reread, hreread, ?_⟩
  simp only [Query.selection, keysQuery, hrequired, Query.clausesOf, Query.ownClauses,
    Query.embeddedRows, Query.joinedClauses, bind, Except.bind] at hreread
  cases hreread
  refine ⟨rfl, rfl, ?_, rfl⟩
  dsimp only [Clauses.append]
  rw [List.append_nil, Option.bind_some, hcondition, Option.toList_some]

/-- The keys of the rows that match a condition are those of the reply to one query. -/
theorem matchingKeys_run (hs : r.schema? s.name = some s) (condition : Condition)
    (hreplies : ∀ reply ∈ session.replies, reply.isRows = true) :
    ∃ selection, (keyQuery r s.name condition).selection r = .ok selection ∧
      matchingKeys r s.name condition session =
        (.ok ((session.resultAt 0).column s.primaryKey), session.after [.select selection]) := by
  obtain ⟨selection, hselection⟩ :=
    exists_selection (q := keyQuery r s.name condition) hs rfl rfl
  refine ⟨selection, hselection, ?_⟩
  rw [keyQuery, primaryKey_of_schema? hs] at hselection
  rw [matchingKeys, Registry.require_eq_ok.mpr hs, ofExcept_ok_bind, hselection,
    ofExcept_ok_bind]
  exact bind_of_ok (send_of_isRows hreplies _)

/-- Completing the rows of a query does not fail. -/
theorem complete_ok (hs : r.schema? s.name = some s) (o : ReadOptions) (rows : List Record)
    (hreplies : ∀ reply ∈ session.replies, reply.isRows = true) :
    ∃ completed, (complete r s o rows session).1 = .ok completed := by
  cases hrows : (rows.map (r.decodeRow s)).isEmpty with
  | true => exact ⟨[], by rw [complete_of_isEmpty hrows]⟩
  | false =>
    obtain ⟨gathered, hgathered, -⟩ :=
      exists_gathered hs o (rowKeys s (rows.map (r.decodeRow s))) hreplies
    rw [complete]
    dsimp only
    rw [hrows]
    exact ⟨_, congrArg Prod.fst (bind_of_ok (Prod.ext hgathered rfl))⟩

/-- The rows with some keys are read by one query, and what is attached to them after it. -/
theorem findByKeys_run (hs : r.schema? s.name = some s)
    (hleft : r.expression? s.name s.primaryKey = some left) (hkeys : keys ≠ [])
    (hreplies : ∀ reply ∈ session.replies, reply.isRows = true) :
    ∃ rows reread attached, (findByKeys r s.name keys session).1 = .ok rows ∧
      Issues (findByKeys r s.name keys) session (.select reread :: attached) ∧
      reread.ReadsKeys s.name left keys ∧ ∀ c ∈ attached, c.IsRead := by
  obtain ⟨reread, hreread, hkept⟩ := exists_keysSelection hs hleft hkeys
  have heq : findByKeys r s.name keys = find r (keysQuery s keys) := by
    rw [findByKeys, if_neg (by simpa using hkeys), primaryKey_of_schema? hs]
    rfl
  have hrequired : r.require (keysQuery s keys).model = .ok s := Registry.require_eq_ok.mpr hs
  have hsent := send_of_isRows hreplies (.select reread)
  obtain ⟨completed, hcompleted⟩ := complete_ok hs (keysQuery s keys).options
    (session.resultAt 0).rows (isRows_after hreplies [.select reread])
  obtain ⟨attached, hattached, hreads⟩ := (reads_complete (r := r) s (keysQuery s keys).options
    (session.resultAt 0).rows).exists_issues (session.after [.select reread])
  refine ⟨completed, reread, attached, ?_, ?_, hkept, hreads⟩
  · rw [heq, find, within_apply, hreread, ofExcept_ok_bind, bind_of_ok hsent, hrequired,
      ofExcept_ok_bind, hcompleted]
    rfl
  · rw [heq, find, issues_within, hreread, ofExcept_ok_bind]
    refine (issues_send (.select reread) session).bind hsent ?_
    rw [hrequired]
    exact hattached

end Reads

section Writes

def keysUpdates (s : Schema) (values : Record) (keys : List Json) : List Command :=
  if (s.assignedEntries values).isEmpty then []
  else [.update s.name (assignments (s.assignedEntries values))
    [.among s.primaryKey (keys.map .ofId)]]

def keysDelete (s : Schema) (keys : List Json) : Command :=
  .delete s.name [.among s.primaryKey (keys.map .ofId)]

/-- The keys of the rows that match a condition are read, and where there are some, the writes for
them are sent and something follows. -/
def onMatching (category : Category) (r : Registry) (s : Schema) (condition : Condition)
    (writes : List Json → List Command) (rest : List Json → Run (List α)) : Run (List α) :=
  within category do
    let keys ← matchingKeys r s.name condition
    if keys.isEmpty then pure []
    else do
      sendAll (writes keys)
      rest keys

theorem updateAll_eq (hs : r.schema? s.name = some s) (values : Record) (condition : Condition) :
    updateAll r s.name values condition =
      onMatching .update r s condition (keysUpdates s values) (findByKeys r s.name) := by
  rw [updateAll, onMatching, Registry.require_eq_ok.mpr hs, ofExcept_ok_bind]
  refine congrArg (within .update) (congrArg (matchingKeys r s.name condition >>= ·) ?_)
  funext keys
  cases hassigned : (s.assignedEntries values).isEmpty with
  | true => simp [keysUpdates, hassigned, sendAll]
  | false => simp [keysUpdates, hassigned, sendAll]

theorem deleteAll_eq (hs : r.schema? s.name = some s) (condition : Condition) :
    deleteAll r s.name condition =
      onMatching .delete r s condition (fun keys => [keysDelete s keys]) pure := by
  rw [deleteAll, onMatching, Registry.require_eq_ok.mpr hs, ofExcept_ok_bind]
  refine congrArg (within .delete) (congrArg (matchingKeys r s.name condition >>= ·) ?_)
  funext keys
  simp [keysDelete, sendAll]

section Matching

variable {category : Category} {condition : Condition} {writes : List Json → List Command}
  {rest : List Json → Run (List α)} {selection : Selection}

/-- Without keys, nothing follows the read of them. -/
theorem onMatching_of_nil (hread : matchingKeys r s.name condition session =
    (.ok [], session.after [.select selection])) :
    (onMatching category r s condition writes rest session).1 = .ok [] ∧
      Issues (onMatching category r s condition writes rest) session [.select selection] := by
  have hrun : onMatching category r s condition writes rest session =
      (.ok [], session.after [.select selection]) := by
    rw [onMatching, within_apply, bind_of_ok hread]
    rfl
  exact ⟨congrArg Prod.fst hrun, by rw [Issues, hrun]; rfl⟩

theorem onMatching_of_keys (hreplies : ∀ reply ∈ session.replies, reply.isRows = true)
    (hread : matchingKeys r s.name condition session =
      (.ok keys, session.after [.select selection])) (hkeys : keys ≠ []) {result : List α}
    {others : List Command}
    (hresult : (rest keys ((session.after [.select selection]).after (writes keys).reverse)).1 =
      .ok result)
    (hothers : Issues (rest keys) ((session.after [.select selection]).after (writes keys).reverse)
      others) :
    (onMatching category r s condition writes rest session).1 = .ok result ∧
      Issues (onMatching category r s condition writes rest) session
        (.select selection :: (writes keys ++ others)) := by
  have hwrites := sendAll_of_isRows (isRows_after hreplies [.select selection]) (writes keys)
  have hrun : onMatching category r s condition writes rest session =
      within category (rest keys) ((session.after [.select selection]).after
        (writes keys).reverse) := by
    rw [onMatching, within_apply, bind_of_ok hread, if_neg (by simpa using hkeys),
      bind_of_ok hwrites, within_apply]
  constructor
  · rw [hrun, within_apply, hresult]
    rfl
  · rw [Issues, hrun, within_snd, hothers]
    simp [Session.after]

end Matching

end Writes

end Store

open Store in
/-- Updates and deletes of all rows that match a condition are confined to the keys that one query
reads, whatever is left of the condition. Where its reply brings none, nothing else is sent and the
result is empty. Else a delete is one statement on the rows with these keys, and gives the keys. An
update is one statement on these rows, or none where no scalar but the key is assigned, and reads
them again by a query for one of the keys, with what is attached to them. -/
theorem bulk_writes_confined {r : Registry} {s : Schema} (hs : r.schema? s.name = some s)
    (hkey : ∀ f ∈ s.fields, f.name = s.primaryKey → f.isList = false ∧ f.isManyToMany = false)
    (condition : Condition) (values : Record) {session : Session}
    (hreplies : ∀ reply ∈ session.replies, reply.isRows = true) :
    let update := updateAll r s.name values condition
    let delete := deleteAll r s.name condition
    let keys := (session.resultAt 0).column s.primaryKey
    ∃ selection, (keyQuery r s.name condition).selection r = .ok selection ∧
      (keys = [] →
        (update session).1 = .ok [] ∧ Issues update session [.select selection] ∧
        (delete session).1 = .ok [] ∧ Issues delete session [.select selection]) ∧
      (keys ≠ [] →
        ((delete session).1 = .ok keys ∧
          Issues delete session [.select selection, keysDelete s keys]) ∧
        ∃ left rows reread attached, r.expression? s.name s.primaryKey = some left ∧
          (update session).1 = .ok rows ∧
          Issues update session
            (.select selection :: (keysUpdates s values keys ++ .select reread :: attached)) ∧
          reread.ReadsKeys s.name left keys ∧ ∀ c ∈ attached, c.IsRead) := by
  intro update delete keys
  obtain ⟨selection, hselection, hread⟩ := matchingKeys_run hs condition hreplies
  have hupdate : update = _ := updateAll_eq hs values condition
  have hdelete : delete = _ := deleteAll_eq hs condition
  rw [hupdate, hdelete]
  refine ⟨selection, hselection, fun hnone => ?_, fun hsome => ?_⟩
  · rw [show (session.resultAt 0).column s.primaryKey = [] from hnone] at hread
    obtain ⟨hupdated, hupdates⟩ := onMatching_of_nil hread
    obtain ⟨hdeleted, hdeletes⟩ := onMatching_of_nil hread
    exact ⟨hupdated, hupdates, hdeleted, hdeletes⟩
  · obtain ⟨left, hleft⟩ := Registry.exists_key_expression hs hkey
    have hbehind := isRows_after (isRows_after hreplies [.select selection])
      (keysUpdates s values keys).reverse
    obtain ⟨rows, reread, attached, hrows, hissues, hreread, hreads⟩ :=
      findByKeys_run hs hleft hsome hbehind
    obtain ⟨hupdated, hupdates⟩ := onMatching_of_keys hreplies hread hsome hrows hissues
    refine ⟨onMatching_of_keys hreplies hread hsome rfl (issues_of_silent rfl), ?_⟩
    exact ⟨left, rows, reread, attached, hleft, hupdated, hupdates, hreread, hreads⟩

namespace Sample

def task : Schema where
  name := "Task"
  fields := [{ name := "done", type := .boolean }, .ofList "notes" .string]

def tasks : Registry := ⟨[task], rfl⟩

def anyTask : Condition :=
  .equals "color" (.str "red")

def taskKeys : List Reply :=
  [.rows { rows := [[("id", .ofInt 7)], [("id", .str "9")]] }]

end Sample

open Store Sample in
/-- A condition that is left out writes to no other tasks than those whose keys were read. -/
theorem bulk_writes_confined_of_tasks :
    anyTask.resolve? tasks "Task" = none ∧
    ∃ selection reread attached,
      Issues (deleteAll tasks "Task" anyTask) ⟨taskKeys, []⟩
        [.select selection, .delete "Task" [.among "id" [.int 7, .int 9]]] ∧
      Issues (updateAll tasks "Task" [("done", .bool true)] anyTask) ⟨taskKeys, []⟩
        (.select selection :: .update "Task" [⟨"done", .value (.bool true)⟩]
          [.among "id" [.int 7, .int 9]] :: .select reread :: attached) ∧
      reread.clauses.conditions = [.connect .or [
        .compare (.column "Task" "id") .equal (.value (.int 7)),
        .compare (.column "Task" "id") .equal (.value (.int 9))]] ∧
      ∀ c ∈ attached, c.IsRead := by
  have hkey : ∀ f ∈ task.fields, f.name = task.primaryKey →
      f.isList = false ∧ f.isManyToMany = false := by decide
  have hreplies : ∀ reply ∈ (⟨taskKeys, []⟩ : Session).replies, reply.isRows = true := by
    simp [taskKeys, Reply.isRows]
  obtain ⟨selection, -, -, hsome⟩ := bulk_writes_confined (r := tasks) (s := task) rfl hkey anyTask
    [("done", .bool true)] hreplies
  obtain ⟨⟨-, hdeletes⟩, left, -, reread, attached, hleft, -, hupdates, hreread, hreads⟩ :=
    hsome (List.cons_ne_nil _ _)
  cases hleft
  exact ⟨rfl, selection, reread, attached, hdeletes, hupdates, hreread.conditions, hreads⟩

end EntityStore
