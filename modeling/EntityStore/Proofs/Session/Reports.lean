import EntityStore.Proofs.Session.Operation
import EntityStore.Proofs.Store.Failures
import Mathlib

/-!
How the operations of a store report failures of the server. All but the delete of one row end with
the first command that the server fails. Whatever fails because of the server, a delete included,
reports its last command, under the heading of the operation that was asked for and not of those
that it was put together from.
-/
namespace EntityStore

open Run

namespace Operation

/-- The heading under which the operation reports failed commands. Those without one are parts of
others, or no operation on rows. -/
def category? : Operation → Option Category
  | findByKey .. | findByValues .. | find _ | count _ | countByValues .. => some .query
  | insertOne .. | insertAll .. => some .insert
  | updateOne .. | updateAll .. | increase .. => some .update
  | deleteOne .. | deleteAll .. => some .delete
  | addRelation .. | removeRelation .. | updateList .. | init _ => none

/-- Whether the operation goes on when what belongs to its row cannot be removed. -/
def goesOn : Operation → Bool
  | deleteOne .. => true
  | _ => false

variable {r : Registry} {d : Dialect} {op : Operation} {category : Category}
  {under : Category → Prop}

private theorem failsFast_drop {α : Type} {m : Run α} (hm : FailsFast under m) :
    FailsFast under (do let _ ← m) :=
  hm.bind fun _ => failsFast_pure ()

theorem failsFast_run (hcategory : op.category? = some category) (hunder : under category)
    (hstops : op.goesOn = false) : FailsFast under (op.run r d) := by
  cases op with
  | findByKey model id options =>
    cases hcategory
    exact failsFast_drop (Store.failsFast_findByKey hunder model id options)
  | findByValues model values options =>
    cases hcategory
    exact failsFast_drop (Store.failsFast_find hunder _)
  | find q =>
    cases hcategory
    exact failsFast_drop (Store.failsFast_find hunder q)
  | count q =>
    cases hcategory
    exact failsFast_drop (Store.failsFast_count hunder q)
  | countByValues model values =>
    cases hcategory
    exact failsFast_drop (Store.failsFast_count hunder _)
  | insertOne model value =>
    cases hcategory
    exact failsFast_drop (Store.failsFast_insertMembers hunder value model)
  | insertAll model values =>
    cases hcategory
    exact failsFast_drop (Store.failsFast_insertAll hunder model values)
  | updateOne model value =>
    cases hcategory
    exact failsFast_drop (Store.failsFast_updateOne hunder model value)
  | updateAll model values condition =>
    cases hcategory
    exact failsFast_drop (Store.failsFast_updateAll hunder model values condition)
  | increase model id field delta =>
    cases hcategory
    exact failsFast_drop (Store.failsFast_increase hunder model id field delta)
  | deleteOne model id => cases hstops
  | deleteAll model condition =>
    cases hcategory
    exact failsFast_drop (Store.failsFast_deleteAll hunder model condition)
  | addRelation | removeRelation | updateList | init => cases hcategory

theorem failsLast_run (hcategory : op.category? = some category) (hunder : under category) :
    FailsLast under (op.run r d) := by
  cases hgoesOn : op.goesOn with
  | false => exact (failsFast_run hcategory hunder hgoesOn).failsLast
  | true =>
    cases op with
    | deleteOne model id =>
      cases hcategory
      exact (Store.failsLast_deleteOne hunder model id).bind_goesOn fun _ _ => ⟨(), rfl⟩
    | _ => cases hgoesOn

end Operation

/-- Whatever is asked of a store and whatever the server replies: the first command that fails ends
the operation, unless that is the delete of one row. An operation that fails with a failure of the
server, or behind one, reports the reply to its last command, in the words of the server, as a
failed connection or under its own heading. -/
theorem failures_reported (r : Registry) (d : Dialect) {op : Operation} {category : Category}
    (hcategory : op.category? = some category) (replies : List Reply) :
    let result := (op.run r d ⟨replies, []⟩).1
    let sent := (op.run r d ⟨replies, []⟩).2.sent
    (op.goesOn = false → ∀ i f, i < sent.length → replies[i]? = some (.failure f) →
      i + 1 = sent.length ∧ result = .error (f.reportedAs category)) ∧
    (∀ g, result = .error g →
      (g.OfServer ∨ ∃ i < sent.length, ∃ f, replies[i]? = some (.failure f)) →
      ∃ i f, i + 1 = sent.length ∧ replies[i]? = some (.failure f) ∧
        g = f.reportedAs category) := by
  dsimp only
  have hunder : (fun c => c = category) category := rfl
  refine ⟨fun hstops i f hi hf => ?_, fun g hg hserver => ?_⟩
  · have hends := (op.failsFast_run (r := r) (d := d) hcategory hunder hstops).ends replies
    obtain ⟨hlast, _, rfl, hresult⟩ := hends.of_failure (Session.failure_answers_iff.mpr ⟨hi, hf⟩)
    rw [Session.length_answers] at hlast
    exact ⟨hlast, hresult⟩
  · have hends := (op.failsLast_run (r := r) (d := d) hcategory hunder).ends hg
    -- either way a command has failed, and then it is the last one that is reported
    have hfailed : ∃ (i : Nat) (f : ExecutionFailure), (Session.answers ⟨replies, []⟩
        (op.run r d ⟨replies, []⟩).2.sent.length)[i]? = some (Reply.failure f) := by
      rcases hserver with hwords | ⟨i, hi, f, hf⟩
      · exact ⟨_, hends.of_ofServer hwords⟩
      · exact ⟨i, f, Session.failure_answers_iff.mpr ⟨hi, hf⟩⟩
    obtain ⟨i, f, hf⟩ := hfailed
    obtain ⟨hlast, _, rfl, hresult⟩ := hends.of_failure hf
    rw [Session.length_answers] at hlast
    exact ⟨i, f, hlast, (Session.failure_answers_iff.mp hf).2, Except.error.inj hresult⟩

namespace Sample

def households : Registry := ⟨[
  { name := "Person", fields := [(Field.ofRelation "pet" "Pet" .oneToOne).makeWeak] },
  { name := "Pet", fields := [(Field.ofRelation "toy" "Toy" .oneToOne).makeWeak] },
  { name := "Toy" }], rfl⟩

def adoption : Operation :=
  .updateOne "Person" [("id", .num (.int 1)), ("pet", .obj [("toy", .obj [])])]

def noToys : List Reply :=
  [.rows { rows := [[("id", .num (.int 7))]] }, .failure (.statement "no such table: Toy")]

end Sample

open Sample in
/-- The failed insert of a toy is reported as the update that asked for it. -/
theorem failures_reported_of_adoption :
    adoption.category? = some .update ∧ adoption.goesOn = false ∧
    (adoption.run households .sqlite ⟨noToys, []⟩).2.sent.length = 2 ∧
    noToys[1]? = some (.failure (.statement "no such table: Toy")) ∧
    (adoption.run households .sqlite ⟨noToys, []⟩).1 =
      .error ⟨.update, .server "no such table: Toy"⟩ := by
  have hsent : (adoption.run households .sqlite ⟨noToys, []⟩).2.sent.length = 2 := by cbv
  have hcategory : adoption.category? = some .update := rfl
  have hreported := (failures_reported households .sqlite hcategory noToys).1 rfl 1
    (.statement "no such table: Toy") (by rw [hsent]; decide) rfl
  exact ⟨hcategory, rfl, hsent, rfl, hreported.2⟩

end EntityStore
