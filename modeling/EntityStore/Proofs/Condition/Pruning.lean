import EntityStore.Proofs.Reading.Predicate

/-!
A condition keeps the comparisons whose fields are stored, and the connectors that have something
left to connect. A node speaks of the nearest model that is named between it and the root. What is
written of a condition reads back as its kept comparisons, in the order of the tree and joined as in
the tree; the values that they compare with are bound and nothing else, and nothing is written or
bound where nothing is kept.
-/
namespace EntityStore

open Reading

namespace Condition

/-- What holds of comparisons, and of connectors whose children it holds of, holds of conditions. -/
@[elab_as_elim]
theorem induction {motive : Condition → Prop}
    (compare : ∀ field operator value isField model,
      motive (.compare field operator value isField model))
    (connect : ∀ operator children model, (∀ c ∈ children, motive c) →
      motive (.connect operator children model)) (c : Condition) : motive c :=
  @Condition.rec motive (fun cs => ∀ c ∈ cs, motive c) compare connect (by simp)
    (fun _ _ hc hrest => List.forall_mem_cons.mpr ⟨hc, hrest⟩) c

/-- The model on whose fields a node speaks, given what the nodes from it up to the root name. -/
def sourceAt (start : String) (path : List (Option String)) : String :=
  (path.findSome? id).getD start

section Spec

variable (r : Registry) (start : String)

mutual

/-- Whether anything is kept of a node under such a path. -/
def survives (path : List (Option String)) : Condition → Bool
  | compare field _ value isField model =>
    let source := sourceAt start (model :: path)
    (r.expression? source field).isSome &&
      (!isField || (r.expression? source (otherField value)).isSome)
  | connect _ children model => survivesAny (model :: path) children

def survivesAny (path : List (Option String)) : List Condition → Bool
  | [] => false
  | c :: rest => survives path c || survivesAny path rest

end

mutual

def leaves (path : List (Option String)) : Condition → List Leaf
  | compare field operator value isField model =>
    let source := sourceAt start (model :: path)
    match r.expression? source field, operand? r source field value isField with
    | some left, some right => [⟨left, operator, right⟩]
    | _, _ => []
  | connect _ children model => leavesOf (model :: path) children

def leavesOf (path : List (Option String)) : List Condition → List Leaf
  | [] => []
  | c :: rest => leaves path c ++ leavesOf path rest

end

mutual

/-- The truth value of what is kept of a node, where `v` gives those of the kept comparisons, the
first of them at `n`. -/
def value (v : Nat → Truth) (path : List (Option String)) (n : Nat) : Condition → Truth
  | compare _ _ _ _ _ => v n
  | connect operator children model => valueOf v operator (model :: path) n children

def valueOf (v : Nat → Truth) (operator : Connector) (path : List (Option String)) (n : Nat) :
    List Condition → Truth
  | [] => operator.neutral
  | c :: rest =>
    if survives r start path c then
      operator.apply (value v path n c)
        (valueOf v operator path (n + (leaves r start path c).length) rest)
    else valueOf v operator path n rest

end

end Spec

section Resolve

variable {r : Registry} {start : String}

theorem sourceAt_cons (start : String) (model : Option String) (path : List (Option String)) :
    sourceAt start (model :: path) = model.getD (sourceAt start path) := by
  cases model <;> rfl

/-- The node is left out, or is kept and stands for its formula. -/
def Resolves (r : Registry) (start : String) (path : List (Option String)) (c : Condition) : Prop :=
  (c.resolve? r (sourceAt start path) = none ∧ survives r start path c = false ∧
    leaves r start path c = []) ∨
  ∃ p f, c.resolve? r (sourceAt start path) = some p ∧ survives r start path c = true ∧
    p.formula? = some f ∧ f.leaves = leaves r start path c ∧
    ∀ v n, f.value v n = value r start v path n c

theorem resolveAll_spec {path : List (Option String)} {cs : List Condition}
    (hcs : ∀ c ∈ cs, Resolves r start path c) :
    (resolveAll r (sourceAt start path) cs = [] ∧ survivesAny r start path cs = false ∧
      leavesOf r start path cs = [] ∧
      ∀ operator v n, valueOf r start v operator path n cs = operator.neutral) ∨
    (resolveAll r (sourceAt start path) cs ≠ [] ∧ survivesAny r start path cs = true ∧
      ∀ operator, ∃ f,
        Predicate.joined? operator (resolveAll r (sourceAt start path) cs) = some f ∧
        f.leaves = leavesOf r start path cs ∧
        ∀ v n, f.value v n = valueOf r start v operator path n cs) := by
  induction cs with
  | nil => exact .inl ⟨rfl, rfl, rfl, fun _ _ _ => rfl⟩
  | cons c rest ih =>
    have hrest := ih fun x hx => hcs x (List.mem_cons_of_mem _ hx)
    rcases hcs c (List.mem_cons_self ..) with ⟨hnone, hdropped, hno⟩ |
      ⟨p, f, hsome, hkept, hf, hleaves, hvalue⟩
    · -- A node that is left out changes nothing.
      have hresolve : resolveAll r (sourceAt start path) (c :: rest) =
          resolveAll r (sourceAt start path) rest := by
        simp [resolveAll, hnone]
      simp only [hresolve, survivesAny, hdropped, Bool.false_or, leavesOf, hno, List.nil_append,
        valueOf, Bool.false_eq_true, if_false]
      exact hrest
    · right
      have hresolve : resolveAll r (sourceAt start path) (c :: rest) =
          p :: resolveAll r (sourceAt start path) rest := by
        simp [resolveAll, hsome]
      refine ⟨by simp [hresolve], by simp [survivesAny, hkept], fun operator => ?_⟩
      simp only [hresolve, leavesOf, valueOf, hkept, if_true]
      rcases hrest with ⟨hempty, -, hnoLeaves, hneutral⟩ | ⟨hne, -, hjoined⟩
      · refine ⟨f, by simp [hempty, Predicate.joined?, hf], by simp [hnoLeaves, hleaves], ?_⟩
        intro v n
        rw [hneutral, Connector.apply_neutral, hvalue]
      · obtain ⟨g, hg, hgleaves, hgvalue⟩ := hjoined operator
        obtain ⟨q, tail, hqs⟩ := List.exists_cons_of_ne_nil hne
        rw [hqs] at hg ⊢
        refine ⟨.join operator f g, Predicate.joined?_cons_cons.mpr ⟨f, g, hf, hg, rfl⟩, ?_, ?_⟩
        · simp [Formula.leaves, hleaves, hgleaves]
        · intro v n
          simp [Formula.value, hleaves, hvalue, hgvalue]

theorem operand?_isSome (r : Registry) (source field : String) (value : Json) (isField : Bool) :
    (operand? r source field value isField).isSome =
      (!isField || (r.expression? source (otherField value)).isSome) := by
  cases isField <;> simp [operand?]

theorem resolves (r : Registry) (start : String) (c : Condition) :
    ∀ path, Resolves r start path c := by
  induction c using Condition.induction with
  | compare field operator value isField model =>
    intro path
    have hoperand := operand?_isSome r (sourceAt start (model :: path)) field value isField
    unfold Resolves
    simp only [resolve?, survives, leaves, ← sourceAt_cons, ← hoperand]
    cases hleft : r.expression? (sourceAt start (model :: path)) field with
    | none => exact .inl ⟨rfl, rfl, rfl⟩
    | some left =>
      cases hright : operand? r (sourceAt start (model :: path)) field value isField with
      | none => exact .inl ⟨rfl, rfl, rfl⟩
      | some right => exact .inr ⟨_, _, rfl, rfl, rfl, rfl, fun _ _ => rfl⟩
  | connect operator children model ih =>
    intro path
    have hchildren := resolveAll_spec fun c hc => ih c hc (model :: path)
    unfold Resolves
    simp only [resolve?, survives, leaves, value, ← sourceAt_cons]
    rcases hchildren with ⟨hempty, hdropped, hno, -⟩ | ⟨hne, hkept, hjoined⟩
    · left
      simp [hempty, hdropped, hno]
    · right
      obtain ⟨f, hf, hleaves, hvalue⟩ := hjoined operator
      obtain ⟨p, rest, hps⟩ := List.exists_cons_of_ne_nil hne
      rw [hps] at hf ⊢
      exact ⟨_, f, rfl, hkept, by rw [Predicate.formula?, hf], hleaves, hvalue⟩

end Resolve

end Condition

/-- No text is no condition. -/
private theorem readCondition_empty (d : Dialect) (offset : Nat) (ps : List Parameter) :
    readCondition d offset ps "" = none := by
  simp [readCondition, lexemes, scan, feed, ScanState.finish, fill, readItems, readDisjunction,
    readConjunction, readPrimary]

/-- What is written of a predicate binds the values of its comparisons and reads back. -/
theorem Predicate.readCondition_write {p : Predicate} {f : Formula} (hf : p.formula? = some f)
    (b : Bindings) :
    (Sql.write b (p.sql b.dialect)).2 = b.extend (Leaf.bound f.leaves) ∧
      readCondition b.dialect b.params.length (Leaf.bound f.leaves)
        (Sql.write b (p.sql b.dialect)).1 = some f := by
  have hreads := p.reads b.dialect
  have hvalues := p.values_items f hf
  constructor
  · rw [Sql.write_bindings, hreads.bound_eq, hvalues]
  · have hfill := @fill_numbered b.dialect b.params.length _ (p.plain b.dialect) [] [] []
    simp only [List.nil_append, List.append_nil, List.length_nil, Nat.add_zero, fill] at hfill
    rw [readCondition, hreads.lexemes_write b rfl, ← hvalues, hfill, readItems_items hf]

namespace Condition

/-- A condition is written as what is kept of it. Where nothing is kept, nothing is written or
bound; else the text reads back as the kept comparisons, joined as in the tree, with the values that
it binds in the place of the placeholders. -/
theorem write_sql_meaning (r : Registry) (b : Bindings) (start : String) (c : Condition) :
    ((Sql.write b (c.sql r b.dialect start)).1 = "" ↔ survives r start [] c = false) ∧
    (survives r start [] c = false → (Sql.write b (c.sql r b.dialect start)).2 = b) ∧
    (survives r start [] c = true → ∃ f,
      (Sql.write b (c.sql r b.dialect start)).2 =
        b.extend (Leaf.bound (leaves r start [] c)) ∧
      readCondition b.dialect b.params.length (Leaf.bound (leaves r start [] c))
        (Sql.write b (c.sql r b.dialect start)).1 = some f ∧
      f.leaves = leaves r start [] c ∧
      ∀ v, f.value v 0 = value r start v [] 0 c) := by
  rcases resolves r start c [] with ⟨hnone, hdropped, -⟩ | ⟨p, f, hsome, hkept, hf, hleaves, hvalue⟩
  · have hsql : c.sql r b.dialect start = [] := by
      simp only [sourceAt, List.findSome?_nil, Option.getD_none] at hnone
      simp [sql, hnone]
    simp [hsql, hdropped]
  · have hsql : c.sql r b.dialect start = p.sql b.dialect := by
      simp only [sourceAt, List.findSome?_nil, Option.getD_none] at hsome
      simp [sql, hsome]
    obtain ⟨hbound, hread⟩ := Predicate.readCondition_write hf b
    have hne : (Sql.write b (p.sql b.dialect)).1 ≠ "" := by
      intro hempty
      rw [hempty, readCondition_empty] at hread
      cases hread
    rw [hsql, hkept, ← hleaves]
    refine ⟨by simp [hne], by simp, fun _ => ⟨f, hbound, hread, rfl, fun v => hvalue v 0⟩⟩

end Condition

end EntityStore
