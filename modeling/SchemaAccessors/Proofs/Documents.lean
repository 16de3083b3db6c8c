import Mathlib.Data.List.Nodup
import SchemaAccessors.Proofs.Reading

/-!
# The documents behind a store

A store is filled by surveying documents. Together with the documents that its loader still supplies they are
the family that a run can see, and their nodes are all the nodes that a run can come to. This file says what it
is for a store to come from documents (`Genuine`, `Intact`), which nodes it can come to have (`Foresees`), and
when identifiers in the family are unambiguous; each of these is kept by reading.
-/

namespace SchemaAccessors

namespace SchemaNode

/-- The names of the properties that a schema declares, in the order of the document. -/
def propertyNames (n : SchemaNode) : List String :=
  match n.members.get? "properties" with
  | some (.obj properties) => properties.map (·.1)
  | _ => []

/-- The keywords and positions of the items that a schema declares. -/
def itemKeys (n : SchemaNode) : List (List String) :=
  n.members.itemSchemas.map (·.keys)

end SchemaNode

namespace Store

/-- Every load is the survey of a document. -/
def Genuine (s : Store) : Prop :=
  ∀ load ∈ s.loads, ∃ members, load.survey = survey (.root load.uri) (.obj members)

/-- Every load is the survey of a document of a URI of its own, and none of the documents was refused. -/
structure Intact (s : Store) : Prop where
  genuine : s.Genuine
  distinct : (s.loads.map (·.uri)).Nodup
  whole : s.Whole

lemma Reads.genuine {loader : Loader} {s t : Store} (h : Reads loader s t) (hs : s.Genuine) : t.Genuine := by
  induction h with
  | refl => exact hs
  | tail _ step ih =>
    cases step with
    | document supplied fresh =>
      intro load hl
      rcases List.mem_append.1 hl with hl | hl
      · exact ih load hl
      · rw [List.mem_singleton.1 hl]
        exact ⟨_, rfl⟩

lemma Reads.distinct {loader : Loader} {s t : Store} (h : Reads loader s t)
    (hs : (s.loads.map (·.uri)).Nodup) : (t.loads.map (·.uri)).Nodup := by
  induction h with
  | refl => exact hs
  | tail _ step ih =>
    cases step with
    | document supplied fresh =>
      rw [List.map_append, List.nodup_append]
      refine ⟨ih, List.nodup_singleton _, fun a ha b hb => ?_⟩
      obtain ⟨load, hl, rfl⟩ := List.mem_map.1 ha
      obtain rfl : b = _ := List.mem_singleton.1 hb
      rintro rfl
      simp only [hasLoaded, List.any_eq_false, decide_eq_true_eq] at fresh
      exact fresh load hl rfl

lemma Reads.intact {loader : Loader} {s t : Store} (h : Reads loader s t) (hs : s.Intact) (ht : t.Whole) :
    t.Intact :=
  ⟨h.genuine hs.genuine, h.distinct hs.distinct, ht⟩

/-! ## The nodes of a family of documents -/

/-- A node is foreseen if it belongs to a document of the store, or to one that the loader supplies under a URI
that the store has no document of. -/
def Foresees (s : Store) (loader : Loader) (n : SchemaNode) : Prop :=
  n ∈ s.nodes ∨ ∃ uri members, s.hasLoaded uri = false ∧ loader.fetch uri = .ok (.obj members) ∧
    n ∈ (survey (.root uri) (.obj members)).nodes

lemma hasLoaded_append (s : Store) (load : Load) (uri : String) :
    hasLoaded ⟨s.loads ++ [load]⟩ uri = (s.hasLoaded uri || decide (load.uri = uri)) := by
  simp [hasLoaded]

/-- Reading brings nothing that was not foreseen. -/
lemma Reads.foresees {loader : Loader} {s t : Store} (h : Reads loader s t) {n : SchemaNode}
    (hn : t.Foresees loader n) : s.Foresees loader n := by
  induction h with
  | refl => exact hn
  | tail _ step ih =>
    cases step with
    | document supplied fresh =>
      apply ih
      rcases hn with hn | ⟨uri, members, hload, hfetch, hn⟩
      · obtain ⟨load, hl, hn⟩ := mem_nodes.1 hn
        rcases List.mem_append.1 hl with hl | hl
        · exact .inl (mem_nodes.2 ⟨load, hl, hn⟩)
        · obtain rfl := List.mem_singleton.1 hl
          exact .inr ⟨_, _, fresh, supplied, hn⟩
      · rw [hasLoaded_append, Bool.or_eq_false_iff] at hload
        exact .inr ⟨uri, members, hload.1, hfetch, hn⟩

lemma Reads.foresees_of_mem {loader : Loader} {s t : Store} (h : Reads loader s t) {n : SchemaNode}
    (hn : n ∈ t.nodes) : s.Foresees loader n :=
  h.foresees (.inl hn)

lemma parent_mem_nodes {uri : String} {members : Members} {n m : SchemaNode}
    (hn : n ∈ (survey (.root uri) (.obj members)).nodes) (hm : n.parent? = some m) :
    m ∈ (survey (.root uri) (.obj members)).nodes := by
  obtain ⟨-, hparent | ⟨m', hm', hparent⟩⟩ := document_and_parent_of_mem_nodes _ _ n hn
  · simp [hm, Position.root] at hparent
  · obtain rfl : m = m' := by
      simpa [hm] using hparent
    exact hm'

/-- No two nodes of a store have one URI. -/
def Unambiguous (s : Store) : Prop :=
  ∀ n ∈ s.nodes, ∀ m ∈ s.nodes, n.uri = m.uri → n = m

/-- Whether identifiers are unambiguous can be computed. -/
lemma unambiguous_of_nodup {s : Store} (h : (s.nodes.map (·.uri)).Nodup) : s.Unambiguous :=
  fun _ hn _ hm huri => List.inj_on_of_nodup_map h hn hm huri

lemma Unambiguous.of_reads {loader : Loader} {s t : Store} (ht : t.Unambiguous) (h : Reads loader s t) :
    s.Unambiguous := fun n hn m hm =>
  ht n (h.nodes_subset hn) m (h.nodes_subset hm)

/-! ## Nodes and their documents -/

lemma Genuine.document_eq {s : Store} (hs : s.Genuine) {load : Load} (hl : load ∈ s.loads) {n : SchemaNode}
    (hn : n ∈ load.survey.nodes) : n.site.document = load.uri := by
  obtain ⟨members, hsurvey⟩ := hs load hl
  rw [hsurvey] at hn
  exact (document_and_parent_of_mem_nodes _ _ n hn).1

lemma Genuine.hasLoaded {s : Store} (hs : s.Genuine) {n : SchemaNode} (hn : n ∈ s.nodes) :
    s.hasLoaded n.site.document = true := by
  obtain ⟨load, hl, hn⟩ := mem_nodes.1 hn
  rw [Store.hasLoaded, List.any_eq_true]
  exact ⟨load, hl, by simpa using (hs.document_eq hl hn).symm⟩

/-- The load that a node is in is the one that is found by the URI of its document. -/
lemma Intact.find?_document {s : Store} (hs : s.Intact) {load : Load} (hl : load ∈ s.loads) {n : SchemaNode}
    (hn : n ∈ load.survey.nodes) : s.loads.find? (·.uri = n.site.document) = some load := by
  rw [hs.genuine.document_eq hl hn]
  have hdistinct := hs.distinct
  generalize s.loads = loads at hl hdistinct
  induction loads with
  | nil => simp at hl
  | cons first rest ih =>
    obtain ⟨hnot, hrest⟩ := List.nodup_cons.1 hdistinct
    rcases List.mem_cons.1 hl with rfl | hl
    · simp
    · have hne : first.uri ≠ load.uri := fun h =>
        hnot (List.mem_map.2 ⟨load, hl, h.symm⟩)
      rw [List.find?_cons_of_neg (by simpa using hne)]
      exact ih hl hrest

/-- Every subschema of a node of an intact store is there. -/
lemma Intact.exists_child? {s : Store} (hs : s.Intact) {n : SchemaNode} (hn : n ∈ s.nodes) {c : Subschema}
    (hc : c ∈ Members.subschemas n.members) : ∃ e, s.child? n c.keys = some e := by
  obtain ⟨load, hl, hn⟩ := mem_nodes.1 hn
  obtain ⟨members, hsurvey⟩ := hs.genuine load hl
  have hhalt := hs.whole load hl
  obtain ⟨x, hx, hpath⟩ : ∃ x ∈ load.survey.places, x.path = n.site.path ++ c.keys := by
    rw [hsurvey] at hn hhalt ⊢
    exact exists_place_of_subschema _ _ hhalt n hn c hc
  obtain ⟨p, hp⟩ := Option.isSome_iff_exists.1 (show
    (load.survey.places.find? (·.path = n.site.path ++ c.keys)).isSome from
      List.find?_isSome.2 ⟨x, hx, by simpa using hpath⟩)
  exact ⟨p.entry, child?_eq_some.2 ⟨load, hs.find?_document hl hn, by simp [hhalt], p, hp, rfl⟩⟩

/-- In an intact store, the property entries of a node are those that its document declares. -/
lemma Intact.propertyEntries {s : Store} (hs : s.Intact) {n : SchemaNode} (hn : n ∈ s.nodes) :
    List.Forall₂ (fun name p => p.1 = name ∧ s.child? n ["properties", name] = some p.2) n.propertyNames
      (s.propertyEntries n) := by
  cases hproperties : n.members.get? "properties" with
  | none => simp [SchemaNode.propertyNames, Store.propertyEntries, hproperties]
  | some value =>
    cases value with
    | obj properties =>
      have hchild : ∀ p ∈ properties, ∃ e, s.child? n ["properties", p.1] = some e := by
        intro p hp
        exact hs.exists_child? hn (Members.mem_subschemas_of_property hproperties hp)
      simp only [SchemaNode.propertyNames, Store.propertyEntries, hproperties]
      clear hproperties
      induction properties with
      | nil => exact .nil
      | cons p properties ih =>
        obtain ⟨e, he⟩ := hchild p List.mem_cons_self
        rw [List.map_cons, List.filterMap_cons_some (b := (p.1, e)) (by simp [he])]
        exact .cons ⟨rfl, he⟩ (ih fun q hq => hchild q (List.mem_cons_of_mem _ hq))
    | _ => simp [SchemaNode.propertyNames, Store.propertyEntries, hproperties]

/-- In an intact store, the item entries of a node are those that its document declares. -/
lemma Intact.itemEntries {s : Store} (hs : s.Intact) {n : SchemaNode} (hn : n ∈ s.nodes) :
    List.Forall₂ (fun keys e => s.child? n keys = some e) n.itemKeys (s.itemEntries n) := by
  unfold SchemaNode.itemKeys Store.itemEntries
  have hchild : ∀ c ∈ n.members.itemSchemas, ∃ e, s.child? n c.keys = some e := fun c hc =>
    hs.exists_child? hn (List.mem_append_right _ hc)
  generalize n.members.itemSchemas = items at hchild
  induction items with
  | nil => exact .nil
  | cons c items ih =>
    obtain ⟨e, he⟩ := hchild c List.mem_cons_self
    rw [List.map_cons, List.filterMap_cons_some (f := fun c : Subschema => s.child? n c.keys) he]
    exact .cons he (ih fun d hd => hchild d (List.mem_cons_of_mem _ hd))

end Store

end SchemaAccessors
