import SchemaAccessors.Proofs.Coverage

/-!
# The accessors of a type

Where identifiers are unambiguous, the draft that is found under the URI of a node is the draft of that node. The
members that a pass writes can then be told by nodes alone: what a getter looks up, what it returns and what
stands for a missing value follow from the node that the property or item stands for.
-/

namespace SchemaAccessors

/-- What stands for a missing value of a node: its default, where that is a boolean, a number or a text, and nothing
where it is not given, null, an array or an object. -/
inductive SchemaNode.FallsBack (n : SchemaNode) : Option Json → Prop
  | bool {b : Bool} (found : n.members.get? "default" = some (.bool b)) : FallsBack n (some (.bool b))
  | int {i : Int} (found : n.members.get? "default" = some (.int i)) : FallsBack n (some (.int i))
  | float {x : Binary64} (found : n.members.get? "default" = some (.float x)) : FallsBack n (some (.float x))
  | str {text : String} (found : n.members.get? "default" = some (.str text)) : FallsBack n (some (.str text))
  | missing (absent : n.members.get? "default" = none) : FallsBack n none
  | null (found : n.members.get? "default" = some .null) : FallsBack n none
  | arr {values : List Json} (found : n.members.get? "default" = some (.arr values)) : FallsBack n none
  | obj {ms : Members} (found : n.members.get? "default" = some (.obj ms)) : FallsBack n none

lemma SchemaNode.fallsBack_literal? (n : SchemaNode) : n.FallsBack n.literal? := by
  unfold literal? default?
  cases hfound : n.members.get? "default" with
  | none => exact .missing hfound
  | some value =>
    cases value with
    | null => exact .null hfound
    | bool b => exact .bool hfound
    | int i => exact .int hfound
    | float x => exact .float hfound
    | str text => exact .str hfound
    | arr values => exact .arr hfound
    | obj ms => exact .obj hfound

namespace Drafting

/-- The accessors for a property of a node, by the node that it stands for. A value that is no schema has none. -/
inductive PropertyAccessors (d : Drafting) (n : SchemaNode) : String × Entry → List Method → Prop
  | plain (key : String) (value : Json) : PropertyAccessors d n (key, .plain value) []
  | node {y : Draft} {default? : Option Json} (key suffix : String) (drafted : y ∈ d.drafts)
      (fallback : y.node.FallsBack default?) :
      PropertyAccessors d n (key, .node y.node)
        (propertyAccessors n.raw key (n.required.contains key) default? ⟨y.node.raw, y.wrapper?⟩ suffix)

/-- The accessors for an item of a node, by the node that it stands for. -/
inductive ItemAccessors (d : Drafting) (n : SchemaNode) : Entry → List Method → Prop
  | plain (value : Json) : ItemAccessors d n (.plain value) []
  | node {y : Draft} {default? : Option Json} (suffix : String) (drafted : y ∈ d.drafts)
      (fallback : y.node.FallsBack default?) :
      ItemAccessors d n (.node y.node) [itemAccessor n.raw default? ⟨y.node.raw, y.wrapper?⟩ suffix]

/-- A type has the members that its node asks for, in order: the field of the raw value with its constructor and
its getter, the accessors of properties and of items, and the size of an array. No two have one name. -/
structure Complete (d : Drafting) (n : SchemaNode) (f : Findings) (t : WrapperType) : Prop where
  fields : t.fields = [⟨Naming.lowerFirst n.raw.name, { raw := n.raw }, .hidden, true⟩]
  constructors : t.constructors = [⟨[⟨n.raw.field.name, { raw := n.raw }⟩], [(n.raw.field.name, n.raw.field.name)],
    .visible⟩]
  methods : ∃ properties items, List.Forall₂ (d.PropertyAccessors n) f.properties properties ∧
    List.Forall₂ (d.ItemAccessors n) f.items items ∧
    t.methods =
      { name := "get" ++ n.raw.name, returns := { raw := n.raw }, body? := some (.field n.raw.field) } ::
        (properties.flatten ++ items.flatten ++ if n.kinds.contains .array then [sizeAccessor n.raw] else [])
  distinct : (t.fields.map (·.name) ++ t.methods.map (·.name)).Nodup

variable {s : Setting} {store : Store} {root : SchemaNode} {model : Model} {d : Drafting}

namespace Covered

variable {found : String → Findings}

/-- The draft that tells the type of a node is the draft of the node. -/
lemma of_typeOf (h : Covered s store root found d) {m : SchemaNode} {r : TypeRef} (hm : m ∈ d.store.nodes)
    (hr : d.TypeOf m r) : ∃ y ∈ d.drafts, y.node = m ∧ r = ⟨y.node.raw, y.wrapper?⟩ := by
  obtain ⟨y, hy, huri, htype, -⟩ := hr
  refine ⟨y, hy, h.unambiguous y.node (h.held hy) m hm huri, ?_⟩
  have hraw := h.accounted.sound.raw y hy
  rw [← htype, Draft.type, hraw]
  rfl

lemma propertyAccessors (h : Covered s store root found d) {n : SchemaNode} {p : String × Entry}
    {methods : List Method} (hp : ∀ m, p.2 = .node m → m ∈ d.store.nodes)
    (hmembers : d.PropertyMembers n p methods) : d.PropertyAccessors n p methods := by
  cases hmembers with
  | plain key value => exact .plain key value
  | node key suffix known =>
    obtain ⟨y, hy, rfl, rfl⟩ := h.of_typeOf (hp _ rfl) known
    exact .node key suffix hy y.node.fallsBack_literal?

lemma itemAccessors (h : Covered s store root found d) {n : SchemaNode} {e : Entry} {methods : List Method}
    (he : ∀ m, e = .node m → m ∈ d.store.nodes) (hmembers : d.ItemMembers n e methods) :
    d.ItemAccessors n e methods := by
  cases hmembers with
  | plain value => exact .plain value
  | node suffix known =>
    obtain ⟨y, hy, rfl, rfl⟩ := h.of_typeOf (he _ rfl) known
    exact .node suffix hy y.node.fallsBack_literal?

/-- A node that gets a type has no boolean values, so the getter for its raw value says get. -/
lemma getter_eq {n : SchemaNode} (hn : n.GetsType) :
    n.raw.getter =
      { name := "get" ++ n.raw.name, returns := { raw := n.raw }, body? := some (.field n.raw.field) } := by
  rcases hn with hraw | hraw | ⟨hraw, -⟩ <;> rw [hraw] <;> rfl

lemma complete (h : Covered s store root found d) {x : Draft} (hx : x ∈ d.drafts) {type : TypeId}
    (htype : x.wrapper? = some type) :
    ∃ t, d.model.types[type]? = some t ∧ d.Complete x.node (found x.node.uri) t := by
  obtain ⟨t, ht, hfilled⟩ := h.filled hx htype
  have hfinds := h.finds hx htype
  obtain ⟨ps, is, hps, his, hhas⟩ := hfilled.members
  refine ⟨t, ht, hhas.fields, hhas.constructors, ⟨ps, is, ?_, ?_, ?_⟩, hhas.distinct⟩
  · have hnodes : ∀ p ∈ (found x.node.uri).properties, ∀ m, p.2 = .node m → m ∈ d.store.nodes := by
      intro p hp m hm
      exact hfinds.mem_nodes (Findings.mem_nodes.2 (.inl ⟨p, hp, by rw [hm]; rfl⟩))
    exact ((List.forall₂_and_left _ _).2 ⟨hnodes, hps⟩).imp fun p methods ⟨hp, h'⟩ => h.propertyAccessors hp h'
  · have hnodes : ∀ e ∈ (found x.node.uri).items, ∀ m, e = .node m → m ∈ d.store.nodes := by
      intro e he m hm
      exact hfinds.mem_nodes (Findings.mem_nodes.2 (.inr ⟨e, he, by rw [hm]; rfl⟩))
    exact ((List.forall₂_and_left _ _).2 ⟨hnodes, his⟩).imp fun e methods ⟨he, h'⟩ => h.itemAccessors he h'
  · rw [hhas.methods, getter_eq ((h.typed_iff hx).1 (by rw [htype]; rfl))]
    rfl

end Covered

/-- Every type that a pass over documents with unambiguous identifiers leaves behind has the members that its
node asks for, and no others. -/
theorem complete_of_pass (hstore : store.Intact) (hroot : root ∈ store.nodes)
    (hok : outcome (pass s root) (start store model) = (.ok ⟨⟩, d)) (hunambiguous : d.store.Unambiguous) :
    ∃ found : SchemaNode → Findings, ∀ x ∈ d.drafts, ∀ type, x.wrapper? = some type →
      Store.Finds s.loader store d.store x.node (found x.node) ∧
        ∃ t, d.model.types[type]? = some t ∧ d.Complete x.node (found x.node) t := by
  obtain ⟨found, h⟩ := covered_of_pass hstore hroot hok hunambiguous
  exact ⟨fun n => found n.uri, fun x hx type htype => ⟨h.finds hx htype, h.complete hx htype⟩⟩

/-- The item that refers to the root of the first document is got under the name of its type, and a property that
has to be there, or that a default stands for, has no checker. -/
theorem complete_of_pass_of_two_documents :
    Sample.last.model.types.map (fun t => (t.name, t.methods.map (·.name))) =
        [("S", ["getJsonObject", "isFlag", "getSelf", "getList", "hasList"]), ("T", ["getObject"]),
          ("List", ["getJsonArray", "getS", "getList", "getItem2", "size"])] ∧
      ∃ found : SchemaNode → Findings, ∀ x ∈ Sample.last.drafts, ∀ type, x.wrapper? = some type →
        Store.Finds Sample.setting.loader Sample.store Sample.last.store x.node (found x.node) ∧
          ∃ t, Sample.last.model.types[type]? = some t ∧ Sample.last.Complete x.node (found x.node) t :=
  ⟨by decide +kernel, complete_of_pass Sample.intact Sample.root_mem Sample.passes Sample.unambiguous⟩

end Drafting

end SchemaAccessors
