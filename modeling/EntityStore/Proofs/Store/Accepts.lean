import EntityStore.Proofs.Session.Failures
import EntityStore.Store.Write

/-!
What a store does not refuse. Where the model is registered, rows are read by their keys or by a
condition, and scalars, references and links are written, without any further check; only the server
may fail them.
-/
namespace EntityStore

namespace Run

variable {α β : Type} {m : Run α}

/-- The server may fail the operation, but the store does not refuse it. -/
def Accepts (m : Run α) : Prop :=
  ∀ s g, (m s).1 = .error g → g.category ≠ .validation

theorem accepts_pure (x : α) : Accepts (pure x : Run α) :=
  fun _ _ h => nomatch h

theorem accepts_send (c : Command) : Accepts (send c) := by
  intro s g h
  obtain ⟨_ | ⟨_ | f, rest⟩, sent⟩ := s
  · cases h
  · cases h
  · cases h
    cases f <;> exact nofun

theorem Accepts.bind {f : α → Run β} (hm : Accepts m) (hf : ∀ x, Accepts (f x)) :
    Accepts (m >>= f) := by
  intro s g h
  rw [bind_apply] at h
  rcases hms : m s with ⟨g' | x, s'⟩
  · rw [hms] at h
    cases h
    exact hm s g (by rw [hms])
  · rw [hms] at h
    exact hf x s' g h

theorem accepts_ofExcept_bind {e : Except Failure α} {f : α → Run β} {x : α} (he : e = .ok x)
    (hf : Accepts (f x)) : Accepts (ofExcept e >>= f) := by
  subst he
  exact hf

theorem category_within {category : Category} (hcategory : category ≠ .validation) {g : Failure} :
    (g.within category).category = .validation ↔ g.category = .validation := by
  unfold Failure.within
  split
  · next hoperation =>
    refine ⟨fun h => absurd h hcategory, fun h => ?_⟩
    rw [h] at hoperation
    cases hoperation
  · exact Iff.rfl

theorem Accepts.within (hm : Accepts m) {category : Category} (hcategory : category ≠ .validation) :
    Accepts (m.within category) := by
  intro s g h
  rw [within_apply] at h
  cases hresult : (m s).1 with
  | ok x =>
    rw [hresult] at h
    cases h
  | error g' =>
    rw [hresult] at h
    cases h
    exact mt (category_within hcategory).mp (hm s g' hresult)

theorem accepts_inOrder {ms : List (Run Unit)} (h : ∀ m ∈ ms, Accepts m) :
    Accepts (inOrder ms) := by
  induction ms with
  | nil => exact accepts_pure ()
  | cons m rest ih =>
    have hrest := ih fun x hx => h x (List.mem_cons_of_mem _ hx)
    exact (h m (List.mem_cons_self ..)).bind fun _ => hrest

end Run

namespace Store

open Run

variable {r : Registry}

section Reading

theorem exists_selection {q : Query} {s : Schema} (hs : r.schema? q.model = some s)
    (hrelations : q.options.relations = []) (hjoins : q.joins = []) :
    ∃ selected, q.selection r = .ok selected := by
  obtain ⟨options, model, condition, joins⟩ := q
  cases hjoins
  have hrequired := Registry.require_eq_ok.mpr hs
  have hrows : Query.embeddedRows r s options.relations = .ok [] := by
    rw [show options.relations = [] from hrelations, Query.embeddedRows]
  simp only [Query.selection, hrequired, Query.clausesOf, Query.ownClauses, hrows,
    Query.joinedClauses, bind, Except.bind]
  exact ⟨_, rfl⟩

theorem accepts_fetchList (s : Schema) (f : Field) (keys : List Json) :
    Accepts (fetchList s f keys) := by
  unfold fetchList
  split
  · exact accepts_pure _
  · exact (accepts_send _).bind fun _ => accepts_pure _

theorem accepts_gather {reads : List (String × Run Gathered)} (h : ∀ a ∈ reads, Accepts a.2) :
    Accepts (gather reads) := by
  induction reads with
  | nil => exact accepts_pure _
  | cons a rest ih =>
    have hrest := ih fun x hx => h x (List.mem_cons_of_mem _ hx)
    exact (h a (List.mem_cons_self ..)).bind fun _ => hrest.bind fun _ => accepts_pure _

/-- Only relations that are asked for can be refused. -/
theorem accepts_find {q : Query} {s : Schema} (hs : r.schema? q.model = some s)
    (hrelations : q.options.relations = []) (hjoins : q.joins = []) : Accepts (find r q) := by
  obtain ⟨selected, hselected⟩ := exists_selection hs hrelations hjoins
  refine Accepts.within ?_ (by decide)
  refine accepts_ofExcept_bind hselected ((accepts_send _).bind fun result => ?_)
  refine accepts_ofExcept_bind (Registry.require_eq_ok.mpr hs) ?_
  unfold complete
  dsimp only
  split
  · exact accepts_pure _
  · refine (accepts_gather fun a ha => ?_).bind fun _ => accepts_pure _
    rw [attachments, hrelations] at ha
    obtain ⟨f, -, rfl⟩ := List.mem_map.mp ha
    exact accepts_fetchList s f _

theorem accepts_findByKey {model : String} {s : Schema} (hs : r.schema? model = some s)
    (id : Json) : Accepts (findByKey r model id {}) :=
  accepts_ofExcept_bind (Registry.require_eq_ok.mpr hs) (accepts_find hs rfl rfl)

theorem accepts_findByKeys {model : String} {s : Schema} (hs : r.schema? model = some s)
    (keys : List Json) : Accepts (findByKeys r model keys) := by
  unfold findByKeys
  split
  · exact accepts_pure _
  · exact accepts_find hs rfl rfl

theorem accepts_matchingKeys {model : String} {s : Schema} (hs : r.schema? model = some s)
    (condition : Condition) : Accepts (matchingKeys r model condition) := by
  obtain ⟨selected, hselected⟩ := exists_selection (q := {
    options := { fields := [s.primaryKey] }
    model
    condition := some condition }) hs rfl rfl
  refine accepts_ofExcept_bind (Registry.require_eq_ok.mpr hs) ?_
  exact accepts_ofExcept_bind hselected ((accepts_send _).bind fun _ => accepts_pure _)

end Reading

section Writing

variable {model : String} {s : Schema} (hs : r.schema? model = some s)

theorem accepts_insertLinks (join : JoinTable) (owner : Json) (ids : List Json) :
    Accepts (insertLinks join owner ids) := by
  unfold insertLinks
  split
  · exact accepts_pure ()
  · exact (accepts_send _).bind fun _ => accepts_pure ()

theorem accepts_insertEmpty (model key : String) (n : Nat) : Accepts (insertEmpty model key n) := by
  induction n with
  | zero => exact accepts_pure _
  | succ n ih => exact (accepts_send _).bind fun _ => ih.bind fun _ => accepts_pure _

theorem accepts_updateList (model : String) (owner : Json) (field : String) (values : Json) :
    Accepts (updateList model owner field values) := by
  refine (accepts_send _).bind fun _ => ?_
  dsimp only
  split
  · exact accepts_pure ()
  · exact (accepts_send _).bind fun _ => accepts_pure ()

theorem accepts_writeLocalized (model : String) (id : Json) (entries : List Entry) :
    Accepts (writeLocalized r model id entries) :=
  (accepts_send _).bind fun _ => (accepts_send _).bind fun _ => accepts_pure ()

theorem accepts_ownedWrites (s : Schema) (id : Json) (value : Record) :
    ∀ m ∈ ownedWrites r s id value, Accepts m := by
  intro m hm
  rcases List.mem_append.mp hm with hlist | hlocalized
  · obtain ⟨e, -, rfl⟩ := List.mem_map.mp hlist
    exact accepts_updateList _ _ _ _
  · split at hlocalized
    · cases hlocalized
    · rw [List.mem_singleton.mp hlocalized]
      exact accepts_writeLocalized _ _ _

include hs

theorem accepts_insertAll (values : List Record) : Accepts (insertAll r model values) := by
  refine Accepts.within ?_ (by decide)
  refine accepts_ofExcept_bind (Registry.require_eq_ok.mpr hs) ?_
  split
  · exact accepts_pure _
  · dsimp only
    split
    · exact (accepts_insertEmpty _ _ _).bind fun keys => accepts_findByKeys hs keys
    · exact (accepts_send _).bind fun result => accepts_findByKeys hs _

end Writing

section Operations

variable {model : String} {s : Schema} (hs : r.schema? model = some s)

include hs

theorem accepts_updateAll (values : Record) (condition : Condition) :
    Accepts (updateAll r model values condition) := by
  refine Accepts.within ?_ (by decide)
  refine accepts_ofExcept_bind (Registry.require_eq_ok.mpr hs) ?_
  refine (accepts_matchingKeys hs condition).bind fun keys => ?_
  split
  · exact accepts_pure _
  · dsimp only
    split
    · exact accepts_findByKeys hs keys
    · exact (accepts_send _).bind fun _ => accepts_findByKeys hs keys

theorem accepts_increase {field : String} {delta : Json}
    (h : (isIncreasable s field && delta.isNumber) = true) (id : Json) :
    Accepts (increase r model id field delta) := by
  refine Accepts.within ?_ (by decide)
  refine accepts_ofExcept_bind (Registry.require_eq_ok.mpr hs) ?_
  rw [if_pos h]
  exact (accepts_send _).bind fun _ => accepts_findByKey hs id

end Operations

end Store

end EntityStore
