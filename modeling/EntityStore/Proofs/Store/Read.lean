import EntityStore.Proofs.Session.Sends
import EntityStore.Proofs.Store.Admits

/-!
Reading sends admitted commands, however many relations and lists are read along.
-/
namespace EntityStore

open Run

theorem Registry.require_named {r : Registry} {model : String} {s : Schema}
    (h : r.require model = .ok s) : r.schema? s.name = some s ∧ s.name = model := by
  have hs := require_eq_ok.mp h
  have hname := schema?_name hs
  exact ⟨hname ▸ hs, hname⟩

namespace Store

variable {r : Registry}

theorem sends_fetchLinks {s : Schema} (hs : s ∈ r.schemas) {f : Field} (hf : f ∈ s.fields)
    {relation : Relation} (hkind : f.kind = .manyToMany relation) (fetch : RelationFetch)
    (keys : List Json) : Sends r.Admits (fetchLinks r s f relation fetch keys) := by
  unfold fetchLinks
  split
  · exact sends_pure _
  · refine sends_ofExcept_bind fun related hrelated => ?_
    refine (sends_send (.links ⟨?_, related, ?_⟩)).bind fun result => sends_pure _
    · obtain ⟨howner, hjoined, hid⟩ := Registry.holds_links hs hf hkind
      exact ⟨⟨_, hid⟩, by simp [howner, hjoined, hid]⟩
    · have hfound := Registry.require_eq_ok.mp hrelated
      refine ⟨Registry.schema?_mem hfound, (Registry.schema?_name hfound).symm, rfl, ?_⟩
      intro c hc
      obtain ⟨n, -, hn⟩ := List.mem_filterMap.mp hc
      obtain ⟨e, he, rfl⟩ := Option.map_eq_some_iff.mp hn
      exact ⟨n, he⟩

theorem sends_fetchList {s : Schema} (hs : s ∈ r.schemas) {f : Field} (hf : f ∈ s.fields)
    (hlist : f.isList = true) (keys : List Json) : Sends r.Admits (fetchList s f keys) := by
  unfold fetchList
  split
  · exact sends_pure _
  · obtain ⟨howner, hvalue, hid⟩ := Registry.holds_list hs hf hlist
    refine (sends_send (.elements _ ⟨⟨_, hid⟩, ?_⟩)).bind fun result => sends_pure _
    simp [howner, hvalue, hid]

theorem sends_attachments {s : Schema} (hs : s ∈ r.schemas) (o : ReadOptions) (keys : List Json) :
    ∀ a ∈ attachments r s o keys, Sends r.Admits a.2 := by
  intro a ha
  rcases List.mem_append.mp ha with hlink | hlist
  · obtain ⟨fetch, -, hfetch⟩ := List.mem_filterMap.mp hlink
    obtain ⟨f, hf, hread⟩ := Option.bind_eq_some_iff.mp hfetch
    split at hread
    · next relation hkind =>
      cases hread
      exact sends_fetchLinks hs (Schema.field?_mem hf) hkind fetch keys
    · cases hread
  · obtain ⟨f, hf, rfl⟩ := List.mem_map.mp hlist
    obtain ⟨hmem, hkind⟩ := List.mem_filter.mp (List.mem_of_mem_filter hf)
    exact sends_fetchList hs hmem hkind keys

theorem sends_gather {P : Command → Prop} {reads : List (String × Run Gathered)}
    (h : ∀ a ∈ reads, Sends P a.2) : Sends P (gather reads) := by
  induction reads with
  | nil => exact sends_pure _
  | cons a rest ih =>
    have hrest := ih fun x hx => h x (List.mem_cons_of_mem _ hx)
    refine (h a (List.mem_cons_self ..)).bind fun gathered => ?_
    exact hrest.bind fun others => sends_pure _

theorem sends_complete {s : Schema} (hs : s ∈ r.schemas) (o : ReadOptions) (rows : List Record) :
    Sends r.Admits (complete r s o rows) := by
  unfold complete
  dsimp only
  split
  · exact sends_pure _
  · exact (sends_gather (sends_attachments hs o _)).bind fun gathered => sends_pure _

variable (r)

theorem sends_find (q : Query) : Sends r.Admits (find r q) := by
  refine Sends.within ?_ .query
  refine sends_ofExcept_bind fun selection hselection => ?_
  refine (sends_send (.select hselection)).bind fun result => ?_
  refine sends_ofExcept_bind fun s hs => ?_
  exact sends_complete (Registry.schema?_mem (Registry.require_eq_ok.mp hs)) _ _

theorem sends_findByKey (model : String) (id : Json) (options : ReadOptions) :
    Sends r.Admits (findByKey r model id options) :=
  (sends_ofExcept _).bind fun _ => sends_find r _

theorem sends_findByValues (model : String) (values : Record) (options : ReadOptions) :
    Sends r.Admits (findByValues r model values options) :=
  sends_find r _

theorem sends_findByKeys (model : String) (keys : List Json) :
    Sends r.Admits (findByKeys r model keys) := by
  unfold findByKeys
  split
  · exact sends_pure _
  · exact sends_find r _

theorem sends_count (q : Query) : Sends r.Admits (count r q) := by
  refine Sends.within ?_ .query
  refine sends_ofExcept_bind fun selection hselection => ?_
  exact (sends_send (.count hselection)).bind fun result => sends_pure _

theorem sends_countByValues (model : String) (values : Record) :
    Sends r.Admits (countByValues r model values) :=
  sends_count r _

theorem sends_matchingKeys (model : String) (condition : Condition) :
    Sends r.Admits (matchingKeys r model condition) := by
  refine (sends_ofExcept _).bind fun s => ?_
  refine sends_ofExcept_bind fun selection hselection => ?_
  exact (sends_send (.select hselection)).bind fun result => sends_pure _

end Store

end EntityStore
