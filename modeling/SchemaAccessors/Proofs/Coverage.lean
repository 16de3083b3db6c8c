import SchemaAccessors.Proofs.Filling
import SchemaAccessors.Proofs.Settled

/-!
# What a pass covers

A pass that succeeds drafts the least set of nodes that holds the root and, with each node that gets a type, what
its properties and items were found to stand for and what it is written in. References are followed while the
pass goes on, so what they stand for is what they led to then: `Store.Finds` says that each entry of the document
has such a finding, and that the findings are what the properties and items are in the end, if what identifiers
lead to does not depend on the way.
-/

namespace SchemaAccessors

/-- A node gets a type if its values may be of any kind, are arrays, or are objects with a property. -/
def SchemaNode.GetsType (n : SchemaNode) : Prop :=
  n.raw = .any ∨ n.raw = .array ∨ (n.raw = .object ∧ n.propertyNames ≠ [])

namespace Store

/-- What the properties and items that a node declares were found to stand for, somewhere between two stores. It
is what they stand for in the second one, if that is coherent. -/
structure Finds (loader : Loader) (first last : Store) (n : SchemaNode) (f : Findings) : Prop where
  properties : List.Forall₂ (fun name p => p.1 = name ∧
    ∃ e, last.child? n ["properties", name] = some e ∧ StoodFor loader first last e p.2)
    n.propertyNames f.properties
  items : List.Forall₂ (fun keys found => ∃ e, last.child? n keys = some e ∧ StoodFor loader first last e found)
    n.itemKeys f.items
  settled : last.Coherent → outcome (Store.properties loader n) last = (.ok f.properties, last) ∧
    outcome (Store.items loader n) last = (.ok f.items, last)

variable {loader : Loader} {first s : Store} {n m : SchemaNode} {f : Findings}

lemma Intact.getsType_iff (hs : s.Intact) (hn : n ∈ s.nodes) : s.GetsType n ↔ n.GetsType := by
  have hlength := (hs.propertyEntries hn).length_eq
  unfold GetsType SchemaNode.GetsType SchemaNode.raw
  cases RawKind.ofKinds n.kinds <;> simp [← List.length_pos_iff, hlength]

lemma forall₂_trans {α β γ : Type} {R : α → β → Prop} {S : β → γ → Prop} {as : List α} {bs : List β}
    {cs : List γ} (h : List.Forall₂ R as bs) (h' : List.Forall₂ S bs cs) :
    List.Forall₂ (fun a c => ∃ b, R a b ∧ S b c) as cs := by
  induction h generalizing cs with
  | nil =>
    cases h'
    exact .nil
  | cons hR _ ih =>
    cases h' with
    | cons hS hrest => exact .cons ⟨_, hR, hS⟩ (ih hrest)

/-- What the entries of a node stood for are findings for the properties and items that it declares. -/
lemma Intact.finds {first last : Store} (hlast : last.Intact) (hn : n ∈ last.nodes)
    (hproperties : List.Forall₂ (fun p q => q.1 = p.1 ∧ StoodFor loader first last p.2 q.2)
      (last.propertyEntries n) f.properties)
    (hitems : List.Forall₂ (StoodFor loader first last) (last.itemEntries n) f.items) :
    Finds loader first last n f := by
  refine ⟨?_, ?_, fun hcoherent => ⟨properties_settled hcoherent hproperties, items_settled hcoherent hitems⟩⟩
  · refine (forall₂_trans (hlast.propertyEntries hn) hproperties).imp ?_
    rintro name q ⟨p, ⟨hname, hchild⟩, hkey, hstood⟩
    exact ⟨hkey.trans hname, p.2, hchild, hstood⟩
  · refine (forall₂_trans (hlast.itemEntries hn) hitems).imp ?_
    rintro keys e' ⟨e, hchild, hstood⟩
    exact ⟨e, hchild, hstood⟩

/-- The nodes among findings are in the store. -/
lemma Finds.mem_nodes (h : Finds loader first s n f) (hm : m ∈ f.nodes) : m ∈ s.nodes := by
  have held {e found : Entry} {keys : List String} (he : s.child? n keys = some e)
      (hstood : StoodFor loader first s e found) (hfound : found.node? = some m) : m ∈ s.nodes := by
    have hholds := hstood.holds (holds_of_child? he)
    cases found with
    | plain value => simp [Entry.node?] at hfound
    | node n =>
      obtain rfl : n = m := Option.some.inj hfound
      exact hholds.mem_nodes
  rcases Findings.mem_nodes.1 hm with ⟨p, hp, hpm⟩ | ⟨found, hfound, hfm⟩
  · obtain ⟨name, -, -, e, he, hstood⟩ := exists_of_mem_right h.properties hp
    exact held he hstood hpm
  · obtain ⟨keys, -, e, he, hstood⟩ := exists_of_mem_right h.items hfound
    exact held he hstood hfm

end Store

namespace Drafting

section Pass

variable {s : Setting} {store : Store} {root : SchemaNode} {model : Model} {d : Drafting}

/-- The nodes among findings have drafts. -/
lemma Filled.exists_typeOf {loader : Loader} {first : Store} {n m : SchemaNode} {t : WrapperType} {f : Findings}
    (h : Filled loader first d n t f) (hm : m ∈ f.nodes) : ∃ r, d.TypeOf m r := by
  obtain ⟨ps, is, hps, his, -⟩ := h.members
  rcases Findings.mem_nodes.1 hm with ⟨p, hp, hpm⟩ | ⟨e, he, hem⟩
  · obtain ⟨methods, -, hmembers⟩ := Store.exists_of_mem_right hps.flip hp
    cases hmembers with
    | plain key value => simp [Entry.node?] at hpm
    | node key suffix known =>
      obtain rfl := Option.some.inj hpm
      exact ⟨_, known⟩
  · obtain ⟨methods, -, hmembers⟩ := Store.exists_of_mem_right his.flip he
    cases hmembers with
    | plain value => simp [Entry.node?] at hem
    | node suffix known =>
      obtain rfl := Option.some.inj hem
      exact ⟨_, known⟩

/-- A node has a draft that is registered. -/
def Registered (d : Drafting) (n : SchemaNode) : Prop :=
  ∃ uri id x, (uri, some id) ∈ d.registry ∧ d.drafts[id]? = some x ∧ x.node = n

lemma Sound.registered_iff (h : d.Sound) {n : SchemaNode} : d.Registered n ↔ ∃ x ∈ d.drafts, x.node = n := by
  constructor
  · rintro ⟨uri, id, x, -, hx, hn⟩
    exact ⟨x, List.mem_of_getElem? hx, hn⟩
  · rintro ⟨x, hx, hn⟩
    obtain ⟨id, hid⟩ := List.getElem?_of_mem hx
    exact ⟨x.node.uri, id, x, h.mem_registry hid, hid, hn⟩

/-- The nodes that a root reaches by what is found: those that properties and items of nodes with types stand
for, and what nodes with types are written in. -/
inductive Reached (found : SchemaNode → Findings) (root : SchemaNode) : SchemaNode → Prop
  | root : Reached found root root
  | entry {n m : SchemaNode} (reached : Reached found root n) (typed : n.GetsType) (hm : m ∈ (found n).nodes) :
      Reached found root m
  | parent {n m : SchemaNode} (reached : Reached found root n) (typed : n.GetsType) (hm : n.parent? = some m) :
      Reached found root m

/-- What a pass that succeeds over documents with unambiguous identifiers leaves behind. -/
structure Covered (s : Setting) (store : Store) (root : SchemaNode) (found : String → Findings) (d : Drafting) :
    Prop where
  accounted : Accounted s store root found [] [] d
  started : ∀ x ∈ d.drafts, x.started = true
  root : ∃ x ∈ d.drafts, x.node = root
  intact : d.store.Intact
  unambiguous : d.store.Unambiguous

theorem covered_of_pass (hstore : store.Intact) (hroot : root ∈ store.nodes)
    (hok : outcome (pass s root) (start store model) = (.ok ⟨⟩, d)) (hunambiguous : d.store.Unambiguous) :
    ∃ found, Covered s store root found d := by
  obtain ⟨⟨found, haccounted⟩, hstarted, ⟨x, hx, huri⟩, hwhole⟩ := accounted_of_pass hstore.genuine hroot hok
  obtain ⟨j, hj⟩ := List.getElem?_of_mem hx
  have hheld := (haccounted.inOrder hj).held
  have hnode := hunambiguous x.node hheld root (haccounted.reads.nodes_subset hroot) huri
  exact ⟨found, haccounted, hstarted, ⟨x, hx, hnode⟩,
    haccounted.reads.intact hstore (hwhole hstore.whole), hunambiguous⟩

namespace Covered

variable {found : String → Findings}

lemma held (h : Covered s store root found d) {x : Draft} (hx : x ∈ d.drafts) : x.node ∈ d.store.nodes := by
  obtain ⟨j, hj⟩ := List.getElem?_of_mem hx
  exact (h.accounted.inOrder hj).held

lemma typed_iff (h : Covered s store root found d) {x : Draft} (hx : x ∈ d.drafts) :
    x.wrapper?.isSome = true ↔ x.node.GetsType := by
  obtain ⟨j, hj⟩ := List.getElem?_of_mem hx
  rw [((h.accounted.inOrder hj).declared List.not_mem_nil).typed]
  exact h.intact.getsType_iff (h.held hx)

/-- The type of a draft is filled with what was found for its node. -/
lemma filled (h : Covered s store root found d) {x : Draft} (hx : x ∈ d.drafts) {t : TypeId}
    (ht : x.wrapper? = some t) :
    ∃ ty, d.model.types[t]? = some ty ∧ Filled s.loader store d x.node ty (found x.node.uri) := by
  obtain ⟨j, hj⟩ := List.getElem?_of_mem hx
  exact (h.accounted.inOrder hj).filled (h.started x hx) List.not_mem_nil t ht

lemma finds (h : Covered s store root found d) {x : Draft} (hx : x ∈ d.drafts) {t : TypeId}
    (ht : x.wrapper? = some t) : Store.Finds s.loader store d.store x.node (found x.node.uri) := by
  obtain ⟨ty, -, hfilled⟩ := h.filled hx ht
  exact h.intact.finds (h.held hx) hfilled.properties hfilled.items

/-- The drafts of nodes with types. -/
lemma exists_typed (h : Covered s store root found d) {x : Draft} (hx : x ∈ d.drafts) (hgets : x.node.GetsType) :
    ∃ t, x.wrapper? = some t :=
  Option.isSome_iff_exists.1 ((h.typed_iff hx).2 hgets)

/-- Drafts are made for nodes that are reached. -/
lemma reached (h : Covered s store root found d) {j : Nat} {x : Draft} (hx : d.drafts[j]? = some x) :
    Reached (fun n => found n.uri) root x.node := by
  induction j using Nat.strong_induction_on generalizing x with
  | _ j ih =>
    obtain hroot | ⟨i, y, hij, hy, hgets, hreason⟩ := (h.accounted.inOrder hx).justified
    · rw [hroot]
      exact .root
    have hmem := List.mem_of_getElem? hy
    have htyped : y.node.GetsType := (h.intact.getsType_iff (h.held hmem)).1 hgets
    rcases hreason with ⟨-, hfound⟩ | hparent
    · exact .entry (ih i hij hy) htyped hfound
    · exact .parent (ih i hij hy) htyped hparent

/-- The drafts of what is found for a node with a type. -/
lemma exists_found (h : Covered s store root found d) {x : Draft} (hx : x ∈ d.drafts) (hgets : x.node.GetsType)
    {m : SchemaNode} (hm : m ∈ (found x.node.uri).nodes) : ∃ y ∈ d.drafts, y.node = m := by
  obtain ⟨t, ht⟩ := h.exists_typed hx hgets
  obtain ⟨ty, -, hfilled⟩ := h.filled hx ht
  have hmem := (h.finds hx ht).mem_nodes hm
  obtain ⟨r, y, hy, huri, -⟩ := hfilled.exists_typeOf hm
  exact ⟨y, hy, h.unambiguous y.node (h.held hy) m hmem huri⟩

/-- What is reached has a draft. -/
lemma exists_of_reached (h : Covered s store root found d) {n : SchemaNode}
    (hn : Reached (fun n => found n.uri) root n) : ∃ x ∈ d.drafts, x.node = n := by
  induction hn with
  | root => exact h.root
  | entry _ typed hm ih =>
    obtain ⟨x, hx, rfl⟩ := ih
    exact h.exists_found hx typed hm
  | @parent n m _ typed hm ih =>
    obtain ⟨x, hx, rfl⟩ := ih
    obtain ⟨j, hj⟩ := List.getElem?_of_mem hx
    have hdeclared := (h.accounted.inOrder hj).declared List.not_mem_nil
    have hgets := (h.intact.getsType_iff (h.held hx)).2 typed
    obtain ⟨y, hy, huri⟩ := hdeclared.parent hgets m hm
    have hmem := h.accounted.genuine.parent_mem (h.held hx) hm
    exact ⟨y, hy, h.unambiguous y.node (h.held hy) m hmem huri⟩

end Covered

/-- A pass that succeeds over documents with unambiguous identifiers registers the nodes that its root reaches,
and no others. What properties and items stand for is what references led to while the pass went on. -/
theorem registered_iff_reached (hstore : store.Intact) (hroot : root ∈ store.nodes)
    (hok : outcome (pass s root) (start store model) = (.ok ⟨⟩, d)) (hunambiguous : d.store.Unambiguous) :
    ∃ found : SchemaNode → Findings,
      (∀ n, d.Registered n → n.GetsType → Store.Finds s.loader store d.store n (found n)) ∧
        ∀ n, d.Registered n ↔ Reached found root n := by
  obtain ⟨found, h⟩ := covered_of_pass hstore hroot hok hunambiguous
  refine ⟨fun n => found n.uri, fun n hn hgets => ?_, fun n => ?_⟩
  · obtain ⟨x, hx, rfl⟩ := h.accounted.sound.registered_iff.1 hn
    obtain ⟨t, ht⟩ := h.exists_typed hx hgets
    exact h.finds hx ht
  · rw [h.accounted.sound.registered_iff]
    constructor
    · rintro ⟨x, hx, rfl⟩
      obtain ⟨j, hj⟩ := List.getElem?_of_mem hx
      exact h.reached hj
    · exact h.exists_of_reached

end Pass

/-! ### Two documents that refer to each other -/

namespace Sample

def members : Members :=
  [("type", .str "object"),
    ("properties", .obj
      [("flag", .obj [("type", .str "boolean"), ("default", .bool true)]), ("self", .obj [("$ref", .str "#")]),
        ("list", .obj [("$ref", .str "t#/definitions/list")]), ("odd", .bool true)]),
    ("required", .arr [.str "self"])]

def list : Json :=
  .obj [("type", .str "array"),
    ("items", .arr [.obj [("$ref", .str "s#")], .obj [("$ref", .str "#/definitions/list")],
      .obj [("type", .str "string")]])]

def other : Json :=
  .obj [("definitions", .obj [("list", list), ("unused", .obj [("type", .str "array")])])]

def setting : Setting :=
  ⟨⟨[("t", other)], ⟨[]⟩, .top⟩, 0, {}⟩

def store : Store :=
  ⟨[⟨"s", survey (.root "s") (.obj members)⟩]⟩

def root : SchemaNode :=
  .root ⟨"s", [], "s", "s", members⟩

def model : Model :=
  ⟨["object"], ["get"], ["sample"], []⟩

def last : Drafting :=
  (outcome (pass setting root) (start store model)).2

lemma intact : store.Intact where
  genuine load hl := ⟨members, by rw [List.mem_singleton.1 hl]⟩
  distinct := List.nodup_singleton _
  whole load hl := by
    rw [List.mem_singleton.1 hl]
    exact Option.isNone_iff_eq_none.1 (by decide +kernel)

lemma root_mem : root ∈ store.nodes :=
  Store.mem_nodes.2 ⟨_, List.mem_singleton_self _,
    node_mem_survey (show (Position.root "s").enter members = .ok (root, [("s", [])]) from rfl)⟩

lemma passes : outcome (pass setting root) (start store model) = (.ok ⟨⟩, last) :=
  eq_ok_of_toBool (by decide +kernel)

lemma unambiguous : last.store.Unambiguous :=
  Store.unambiguous_of_nodup (by decide +kernel)

lemma coherent : last.store.Coherent :=
  Store.coherent_of_isCoherent (by decide +kernel)

end Sample

/-- The root reaches itself, the list in the other document, and the root of that document around it. -/
theorem registered_iff_reached_of_two_documents :
    Sample.last.uris = ["s", "s#/properties/flag", "t#/definitions/list", "t", "t#/definitions/list/items/2"] ∧
      Sample.last.store.Coherent ∧ ∃ found : SchemaNode → Findings,
        (∀ n, Sample.last.Registered n → n.GetsType →
          Store.Finds Sample.setting.loader Sample.store Sample.last.store n (found n)) ∧
        ∀ n, Sample.last.Registered n ↔ Reached found Sample.root n :=
  ⟨by decide +kernel, Sample.coherent,
    registered_iff_reached Sample.intact Sample.root_mem Sample.passes Sample.unambiguous⟩

end Drafting

end SchemaAccessors
