import SchemaAccessors.Proofs.Documents
import SchemaAccessors.Proofs.Registry

/-!
# What filling leaves behind

A pass that succeeds leaves types with members, and the members are made from what properties and items were
found to stand for when their nodes were filled. A ledger keeps these findings, by the URI of the node. This file
says what it is for a state to agree with a ledger (`Accounted`), with some drafts still being declared and some
still being filled, and what each single change does to that.
-/

namespace SchemaAccessors

/-! ## Findings -/

/-- What the properties and items of a node were found to stand for. -/
structure Findings where
  properties : List (String × Entry) := []
  items : List Entry := []

/-- The nodes among findings. -/
def Findings.nodes (f : Findings) : List SchemaNode :=
  f.properties.filterMap (·.2.node?) ++ f.items.filterMap Entry.node?

lemma Findings.mem_nodes {f : Findings} {n : SchemaNode} :
    n ∈ f.nodes ↔ (∃ p ∈ f.properties, p.2.node? = some n) ∨ ∃ e ∈ f.items, e.node? = some n := by
  simp only [nodes, List.mem_append, List.mem_filterMap]

namespace Store

/-- A node gets a type if its values may be of any kind, are arrays, or are objects with a property. -/
def GetsType (s : Store) (n : SchemaNode) : Prop :=
  match RawKind.ofKinds n.kinds with
  | .any | .array => True
  | .object => s.propertyEntries n ≠ []
  | _ => False

variable {loader : Loader} {s t : Store} {n : SchemaNode}

lemma Reads.propertyEntries_eq (h : Reads loader s t) (hn : s.hasLoaded n.site.document = true) :
    t.propertyEntries n = s.propertyEntries n := by
  unfold propertyEntries
  simp only [h.child?_eq hn]

lemma Reads.itemEntries_eq (h : Reads loader s t) (hn : s.hasLoaded n.site.document = true) :
    t.itemEntries n = s.itemEntries n := by
  unfold itemEntries
  simp only [h.child?_eq hn]

lemma Reads.getsType_iff (h : Reads loader s t) (hn : s.hasLoaded n.site.document = true) :
    t.GetsType n ↔ s.GetsType n := by
  unfold GetsType
  rw [h.propertyEntries_eq hn]

end Store

/-! ## Members -/

/-- How the name of a getter begins, by the raw kind of what it gives access to. -/
def RawKind.accessorStem (raw : RawKind) : String :=
  if raw = .boolean then "is" else "get"

/-- The getter for a property whose values have the type `r`, and the checker where the key may be missing and no
default stands for it. What is looked up becomes an object of the type, where the values have one of their own. -/
def propertyAccessors (raw : RawKind) (key : String) (required : Bool) (default? : Option Json) (r : TypeRef)
    (suffix : String) : List Method :=
  { name := r.raw.accessorStem ++ suffix, returns := r
    body? := match r.wrapper? with
      | some type => some (.construct type (.property raw.field key r.raw default?))
      | none => some (.property raw.field key r.raw default?) } ::
    if !required && default?.isNone then
      [{ name := "has" ++ suffix, returns := { raw := .boolean }, body? := some (.presence raw.field key) }]
    else []

def indexParameter : Parameter := ⟨"index", { raw := .integer }⟩

/-- The getter for an item whose values have the type `r`. -/
def itemAccessor (raw : RawKind) (default? : Option Json) (r : TypeRef) (suffix : String) : Method :=
  { name := r.raw.accessorStem ++ suffix, returns := r, parameters := [indexParameter]
    body? := match r.wrapper? with
      | some type => some (.construct type (.item raw.field indexParameter r.raw default?))
      | none => some (.item raw.field indexParameter r.raw default?) }

lemma propertyAccessors_eq (raw : RawKind) (key : String) (required : Bool) (default? : Option Json) (r : TypeRef)
    (suffix : String) :
    propertyAccessors raw key required default? r suffix =
      { name := r.raw.accessorStem ++ suffix, returns := r,
        body? := some (r.wrap (.property raw.field key r.raw default?)) } ::
        if !required && default?.isNone then
          [{ name := "has" ++ suffix, returns := { raw := .boolean }, body? := some (.presence raw.field key) }]
        else [] := by
  unfold propertyAccessors TypeRef.wrap
  cases r.wrapper? <;> rfl

lemma itemAccessor_eq (raw : RawKind) (default? : Option Json) (r : TypeRef) (suffix : String) :
    itemAccessor raw default? r suffix =
      { name := r.raw.accessorStem ++ suffix, returns := r, parameters := [indexParameter]
        body? := some (r.wrap (.item raw.field indexParameter r.raw default?)) } := by
  unfold itemAccessor TypeRef.wrap
  cases r.wrapper? <;> rfl

def sizeAccessor (raw : RawKind) : Method :=
  { name := "size", returns := { raw := .integer }, body? := some (.length raw.field) }

/-- The raw kind of the values of a node. -/
def SchemaNode.raw (n : SchemaNode) : RawKind :=
  .ofKinds n.kinds

/-- The size of the values of a node that may be arrays. -/
def sizeAccessors (n : SchemaNode) : List Method :=
  if n.kinds.contains .array then [sizeAccessor n.raw] else []

namespace WrapperType

/-- The names of fields and methods. -/
def memberNames (t : WrapperType) : List String :=
  t.fields.map (·.name) ++ t.methods.map (·.name)

/-- A type has a raw value, its getter, and further methods, no two members of a name. -/
structure Has (t : WrapperType) (raw : RawKind) (methods : List Method) : Prop where
  fields : t.fields = [raw.field]
  constructors : t.constructors = [raw.constructor]
  methods : t.methods = raw.getter :: methods
  distinct : t.memberNames.Nodup

/-- A type that was declared and not filled. -/
structure Bare (t : WrapperType) : Prop where
  fields : t.fields = []
  constructors : t.constructors = []
  methods : t.methods = []

end WrapperType

namespace Drafting

/-- The type that users of a node see, by its draft. The draft is declared to the end, so it stays as it is. -/
def TypeOf (d : Drafting) (n : SchemaNode) (r : TypeRef) : Prop :=
  ∃ y ∈ d.drafts, y.node.uri = n.uri ∧ y.type = r ∧ (y.wrapper?.isSome = true ↔ d.store.GetsType y.node)

/-- Inside a type, or directly in the namespace of the pass where there is none. -/
def within (s : Setting) : Option TypeId → Container
  | some type => .inside type
  | none => .top s.namespaceIndex

/-- A container is the one for the type of a node: inside the type of what the node is written in, if that has
one, and in the namespace of the pass else. -/
def Belongs (s : Setting) (d : Drafting) (n : SchemaNode) (c : Container) : Prop :=
  match n.parent? with
  | some m => ∃ r, d.TypeOf m r ∧ c = within s r.wrapper?
  | none => c = .top s.namespaceIndex

/-- The type of a draft, if it has one, is declared where it belongs. -/
def Placed (s : Setting) (d : Drafting) (x : Draft) : Prop :=
  ∀ t, x.wrapper? = some t → ∃ ty, d.model.types[t]? = some ty ∧ d.Belongs s x.node ty.container

/-- Nodes of boolean values get no type, so the raw kind alone tells how the name of a getter begins. -/
lemma TypeOf.getterStem_eq {d : Drafting} {n : SchemaNode} {r : TypeRef} (h : d.TypeOf n r) (hd : d.Sound) :
    r.getterStem = r.raw.accessorStem := by
  obtain ⟨y, hy, -, rfl, htyped⟩ := h
  have hraw := hd.raw y hy
  have huntyped : y.raw = .boolean → y.wrapper? = none := by
    intro hboolean
    have hgets : ¬ d.store.GetsType y.node := by
      simp [Store.GetsType, ← hraw, hboolean]
    simpa [hgets] using htyped
  unfold TypeRef.getterStem TypeRef.isBoolean RawKind.accessorStem Draft.type
  by_cases hboolean : y.raw = .boolean
  · simp [hboolean, huntyped hboolean]
  · simp [hboolean]

/-- The members for a property of a node: none for a value that is no schema. -/
inductive PropertyMembers (d : Drafting) (n : SchemaNode) : String × Entry → List Method → Prop
  | plain (key : String) (value : Json) : PropertyMembers d n (key, .plain value) []
  | node {m : SchemaNode} {r : TypeRef} (key suffix : String) (known : d.TypeOf m r) :
      PropertyMembers d n (key, .node m)
        (propertyAccessors n.raw key (n.required.contains key) m.literal? r suffix)

/-- The members for an item of a node. -/
inductive ItemMembers (d : Drafting) (n : SchemaNode) : Entry → List Method → Prop
  | plain (value : Json) : ItemMembers d n (.plain value) []
  | node {m : SchemaNode} {r : TypeRef} (suffix : String) (known : d.TypeOf m r) :
      ItemMembers d n (.node m) [itemAccessor n.raw m.literal? r suffix]

/-- What the type of a node is once it is filled, by what was found between two stores. -/
structure Filled (loader : Loader) (first : Store) (d : Drafting) (n : SchemaNode) (t : WrapperType)
    (f : Findings) : Prop where
  properties : List.Forall₂ (fun p q => q.1 = p.1 ∧ Store.StoodFor loader first d.store p.2 q.2)
    (d.store.propertyEntries n) f.properties
  items : List.Forall₂ (Store.StoodFor loader first d.store) (d.store.itemEntries n) f.items
  members : ∃ ps is, List.Forall₂ (PropertyMembers d n) f.properties ps ∧
    List.Forall₂ (ItemMembers d n) f.items is ∧ t.Has n.raw (ps.flatten ++ is.flatten ++ sizeAccessors n)

/-! ## States that agree with a ledger -/

/-- A draft is declared to the end: it has a type if its node gets one, and what its node is written in has a
draft then. -/
structure Declared (d : Drafting) (x : Draft) : Prop where
  typed : x.wrapper?.isSome = true ↔ d.store.GetsType x.node
  parent : d.store.GetsType x.node → ∀ m, x.node.parent? = some m → ∃ y ∈ d.drafts, y.node.uri = m.uri

/-- A draft is made for the root, for a node that was found when another was filled, or for what a node with a
type is written in. The draft that is the reason is the earlier one. -/
def Justified (d : Drafting) (root : SchemaNode) (found : String → Findings) (j : Nat) (n : SchemaNode) : Prop :=
  n = root ∨ ∃ i y, i < j ∧ d.drafts[i]? = some y ∧ d.store.GetsType y.node ∧
    ((y.started = true ∧ n ∈ (found y.node.uri).nodes) ∨ y.node.parent? = some n)

/-- What a draft is held to in a state that agrees with a ledger of what was found since the store was `first`. -/
structure InOrder (s : Setting) (first : Store) (root : SchemaNode) (found : String → Findings)
    (pending opened : List DraftId) (d : Drafting) (j : DraftId) (x : Draft) : Prop where
  held : x.node ∈ d.store.nodes
  justified : d.Justified root found j x.node
  declared : j ∉ pending → d.Declared x
  bare : x.started = false → ∀ t, x.wrapper? = some t → ∃ ty, d.model.types[t]? = some ty ∧ ty.Bare
  filled : x.started = true → j ∉ opened → ∀ t, x.wrapper? = some t →
    ∃ ty, d.model.types[t]? = some ty ∧ Filled s.loader first d x.node ty (found x.node.uri)
  placed : d.store.Unambiguous → d.Placed s x

/-- A state agrees with a ledger of what was found since the store was `first`, and nothing is drafted but what
the root and the findings ask for. The drafts in `pending` are still being declared, and those in `opened` are
still being filled. -/
structure Accounted (s : Setting) (first : Store) (root : SchemaNode) (found : String → Findings)
    (pending opened : List DraftId) (d : Drafting) : Prop where
  sound : d.Sound
  reads : first.Reads s.loader d.store
  genuine : d.store.Genuine
  inOrder : ∀ ⦃j : DraftId⦄ ⦃x : Draft⦄, d.drafts[j]? = some x → d.InOrder s first root found pending opened j x

/-! ### What stays -/

/-- Nodes have in a state the types that they have in another. -/
def KeepsTypes (d d' : Drafting) : Prop :=
  ∀ ⦃n : SchemaNode⦄ ⦃r : TypeRef⦄, d.TypeOf n r → d'.TypeOf n r

/-- The documents of all drafted nodes are in the store. -/
def Rooted (d : Drafting) : Prop :=
  ∀ x ∈ d.drafts, d.store.hasLoaded x.node.site.document = true

section Mono

variable {s : Setting} {loader : Loader} {first : Store} {root : SchemaNode} {found : String → Findings}
  {d d' : Drafting}

lemma KeepsNodes.of_append (h : d.drafts <+: d'.drafts) : d.KeepsNodes d' := by
  intro j x hx
  obtain ⟨rest, hrest⟩ := h
  refine ⟨x, ?_, rfl, id⟩
  rw [← hrest, List.getElem?_append_left (List.getElem?_eq_some_iff.1 hx).1, hx]

lemma KeepsNodes.exists_mem (h : d.KeepsNodes d') {x : Draft} (hx : x ∈ d.drafts) :
    ∃ y ∈ d'.drafts, y.node = x.node := by
  obtain ⟨j, hj⟩ := List.getElem?_of_mem hx
  obtain ⟨y, hy, hnode, -⟩ := h hj
  exact ⟨y, List.mem_of_getElem? hy, hnode⟩

/-- Where the drafts that are there keep their types, so do nodes. -/
lemma keepsTypes_of_drafts (hrooted : d.Rooted) (hreads : d.store.Reads loader d'.store)
    (hdrafts : ∀ x ∈ d.drafts, ∃ y ∈ d'.drafts, y.node = x.node ∧ y.type = x.type) : d.KeepsTypes d' := by
  rintro n r ⟨x, hx, huri, htype, hgets⟩
  obtain ⟨y, hy, hnode, hsame⟩ := hdrafts x hx
  have hwrapper : y.wrapper? = x.wrapper? := congrArg TypeRef.wrapper? hsame
  refine ⟨y, hy, by rw [hnode, huri], hsame.trans htype, ?_⟩
  rw [hwrapper, hnode, hreads.getsType_iff (hrooted x hx), hgets]

lemma PropertyMembers.mono {n : SchemaNode} {p : String × Entry} {methods : List Method}
    (h : d.PropertyMembers n p methods) (htypes : d.KeepsTypes d') : d'.PropertyMembers n p methods := by
  cases h with
  | plain key value => exact .plain key value
  | node key suffix known => exact .node key suffix (htypes known)

lemma ItemMembers.mono {n : SchemaNode} {e : Entry} {methods : List Method} (h : d.ItemMembers n e methods)
    (htypes : d.KeepsTypes d') : d'.ItemMembers n e methods := by
  cases h with
  | plain value => exact .plain value
  | node suffix known => exact .node suffix (htypes known)

lemma Filled.mono {n : SchemaNode} {t : WrapperType} {f : Findings} (h : Filled loader first d n t f)
    (hn : d.store.hasLoaded n.site.document = true) (hreads : d.store.Reads loader d'.store)
    (htypes : d.KeepsTypes d') : Filled loader first d' n t f := by
  obtain ⟨ps, is, hps, his, hhas⟩ := h.members
  refine ⟨?_, ?_, ps, is, hps.imp fun _ _ h => h.mono htypes, his.imp fun _ _ h => h.mono htypes, hhas⟩
  · rw [hreads.propertyEntries_eq hn]
    exact h.properties.imp fun _ _ ⟨hkey, hstood⟩ => ⟨hkey, hstood.mono .refl hreads⟩
  · rw [hreads.itemEntries_eq hn]
    exact h.items.imp fun _ _ hstood => hstood.mono .refl hreads

lemma Belongs.mono {n : SchemaNode} {c : Container} (h : d.Belongs s n c) (htypes : d.KeepsTypes d') :
    d'.Belongs s n c := by
  unfold Belongs at h ⊢
  split at h
  · obtain ⟨r, hr, hc⟩ := h
    exact ⟨r, htypes hr, hc⟩
  · exact h

lemma Placed.mono {x : Draft} (h : d.Placed s x) (htypes : d.KeepsTypes d')
    (hplaces : ∀ t ty, x.wrapper? = some t → d.model.types[t]? = some ty →
      ∃ ty', d'.model.types[t]? = some ty' ∧ ty'.container = ty.container) : d'.Placed s x := by
  intro t ht
  obtain ⟨ty, hty, hbelongs⟩ := h t ht
  obtain ⟨ty', hty', hcontainer⟩ := hplaces t ty ht hty
  refine ⟨ty', hty', ?_⟩
  rw [hcontainer]
  exact hbelongs.mono htypes

lemma Declared.mono {x : Draft} (h : d.Declared x) (hx : d.store.hasLoaded x.node.site.document = true)
    (hreads : d.store.Reads loader d'.store) (hnodes : d.KeepsNodes d') : d'.Declared x := by
  have hgets := hreads.getsType_iff hx
  refine ⟨by rw [hgets]; exact h.typed, fun hget m hm => ?_⟩
  obtain ⟨z, hz, huri⟩ := h.parent (hgets.1 hget) m hm
  obtain ⟨w, hw, hnode⟩ := hnodes.exists_mem hz
  exact ⟨w, hw, by rw [hnode, huri]⟩

lemma Justified.mono {j : Nat} {n : SchemaNode} (h : d.Justified root found j n) (hrooted : d.Rooted)
    (hreads : d.store.Reads loader d'.store) (hnodes : d.KeepsNodes d') : d'.Justified root found j n := by
  obtain rfl | ⟨i, x, hij, hx, hgets, hreason⟩ := h
  · exact .inl rfl
  obtain ⟨y, hy, hnode, hstarted⟩ := hnodes hx
  refine .inr ⟨i, y, hij, hy, ?_, ?_⟩
  · rwa [hnode, hreads.getsType_iff (hrooted x (List.mem_of_getElem? hx))]
  · rw [hnode]
    exact hreason.imp_left fun ⟨hs, hmem⟩ => ⟨hstarted hs, hmem⟩

/-- A draft stays in order while others change. -/
lemma InOrder.mono {pending pending' opened opened' : List DraftId} {j : DraftId} {x : Draft}
    (h : d.InOrder s first root found pending opened j x) (hrooted : d.Rooted)
    (hx : d.store.hasLoaded x.node.site.document = true) (hreads : d.store.Reads s.loader d'.store)
    (hnodes : d.KeepsNodes d') (htypes : d.KeepsTypes d')
    (hmodel : ∀ t, x.wrapper? = some t → d'.model.types[t]? = d.model.types[t]?)
    (hpending : j ∉ pending' → j ∉ pending) (hopened : j ∉ opened' → j ∉ opened) :
    d'.InOrder s first root found pending' opened' j x where
  held := hreads.nodes_subset h.held
  justified := h.justified.mono hrooted hreads hnodes
  declared hj := (h.declared (hpending hj)).mono hx hreads hnodes
  bare hstarted t ht := by
    rw [hmodel t ht]
    exact h.bare hstarted t ht
  filled hstarted hj t ht := by
    obtain ⟨ty, hty, hfilled⟩ := h.filled hstarted (hopened hj) t ht
    exact ⟨ty, (hmodel t ht).trans hty, hfilled.mono hx hreads htypes⟩
  placed hunambiguous :=
    (h.placed (hunambiguous.of_reads hreads)).mono htypes fun t ty ht hty => ⟨ty, (hmodel t ht).trans hty, rfl⟩

end Mono

/-! ### Single changes -/

namespace Accounted

variable {s : Setting} {first : Store} {root : SchemaNode} {found : String → Findings}
  {pending pending' opened opened' : List DraftId} {d d' : Drafting}

lemma rooted (h : Accounted s first root found pending opened d) : d.Rooted := by
  intro x hx
  obtain ⟨j, hj⟩ := List.getElem?_of_mem hx
  exact h.genuine.hasLoaded (h.inOrder hj).held

/-- Reading keeps the agreement. -/
lemma read (h : Accounted s first root found pending opened d) {store : Store}
    (hreads : d.store.Reads s.loader store) (trace : Trace) :
    Accounted s first root found pending opened { d with store, trace } := by
  have hrooted := h.rooted
  have hsame : ∀ x ∈ d.drafts, ∃ y ∈ d.drafts, y.node = x.node ∧ y.type = x.type := fun x hx =>
    ⟨x, hx, rfl, rfl⟩
  refine ⟨h.sound.read store trace, h.reads.trans hreads, hreads.genuine h.genuine, fun j x hx => ?_⟩
  exact (h.inOrder hx).mono hrooted (hrooted x (List.mem_of_getElem? hx)) hreads
    (.of_append (List.prefix_refl _)) (keepsTypes_of_drafts hrooted hreads hsame) (fun _ _ => rfl) id id

/-- A change at one draft keeps the agreement if that draft is in order behind it. -/
lemma change (h : Accounted s first root found pending opened d) {i : DraftId} (hsound : d'.Sound)
    (hstore : d'.store = d.store) (hdrafts : ∀ j, j ≠ i → d'.drafts[j]? = d.drafts[j]?)
    (hnodes : d.KeepsNodes d') (htypes : d.KeepsTypes d')
    (hmodel : ∀ j x t, j ≠ i → d.drafts[j]? = some x → x.wrapper? = some t →
      d'.model.types[t]? = d.model.types[t]?)
    (hpending : ∀ j, j ≠ i → j ∉ pending' → j ∉ pending) (hopened : ∀ j, j ≠ i → j ∉ opened' → j ∉ opened)
    (hnew : ∀ x, d'.drafts[i]? = some x → d'.InOrder s first root found pending' opened' i x) :
    Accounted s first root found pending' opened' d' := by
  have hrooted := h.rooted
  have hreads : d.store.Reads s.loader d'.store := by
    rw [hstore]
  refine ⟨hsound, h.reads.trans hreads, hreads.genuine h.genuine, fun j x hx => ?_⟩
  by_cases hj : j = i
  · subst hj
    exact hnew x hx
  · rw [hdrafts j hj] at hx
    exact (h.inOrder hx).mono hrooted (hrooted x (List.mem_of_getElem? hx)) hreads hnodes htypes
      (fun t => hmodel j x t hj hx) (hpending j hj) (hopened j hj)

/-- A draft is made for a node of the store that there is a reason for. -/
lemma withDraft {n : SchemaNode} (h : Accounted s first root found pending opened d)
    (hfresh : d.registry.lookup n.uri = none) (hn : n ∈ d.store.nodes)
    (hreason : d.Justified root found d.drafts.length n) :
    Accounted s first root found (d.drafts.length :: pending) opened (d.withDraft n) := by
  have hstep : Step s d (d.withDraft n) := .create hfresh
  have hreads : d.store.Reads s.loader (d.withDraft n).store := .refl
  have hbefore : d.drafts <+: (d.withDraft n).drafts := List.prefix_append _ _
  have hnodes := KeepsNodes.of_append hbefore
  have htypes : d.KeepsTypes (d.withDraft n) :=
    keepsTypes_of_drafts h.rooted hreads fun x hx => ⟨x, hbefore.subset hx, rfl, rfl⟩
  have hbehind {j : Nat} (hj : j ≠ d.drafts.length) : (d.withDraft n).drafts[j]? = d.drafts[j]? := by
    simp only [Drafting.withDraft, List.getElem?_append]
    split
    · rfl
    · rw [List.getElem?_eq_none (by simp; omega), List.getElem?_eq_none (by omega)]
  refine h.change (hstep.sound h.sound) rfl (fun j => hbehind) hnodes htypes (fun _ _ _ _ _ _ => rfl)
    (fun _ _ hj => List.not_mem_of_not_mem_cons hj) (fun _ _ hj => hj) fun x hx => ?_
  obtain rfl : { node := n, raw := .ofKinds n.kinds } = x := by
    simpa [Drafting.withDraft] using hx
  refine ⟨hn, hreason.mono h.rooted hreads hnodes, ?_, ?_, ?_, ?_⟩
  · intro hj
    simp at hj
  · intro _ t ht
    simp at ht
  · intro hstarted
    simp at hstarted
  · intro _ t ht
    simp at ht

/-- A draft without a type is declared to the end where its node gets none. -/
lemma untyped {id : DraftId} {x : Draft} (h : Accounted s first root found (id :: pending) opened d)
    (hx : d.drafts[id]? = some x) (hwrapper : x.wrapper? = none) (hgets : ¬ d.store.GetsType x.node) :
    Accounted s first root found pending opened d := by
  have hsame : ∀ y ∈ d.drafts, ∃ z ∈ d.drafts, z.node = y.node ∧ z.type = y.type := fun y hy =>
    ⟨y, hy, rfl, rfl⟩
  refine h.change (i := id) h.sound rfl (fun _ _ => rfl) (.of_append (List.prefix_refl _))
    (fun _ _ htype => htype) (fun _ _ _ _ _ _ => rfl) (fun j hj hnot => ?_) (fun _ _ hj => hj) fun y hy => ?_
  · exact List.not_mem_cons_of_ne_of_not_mem hj hnot
  · obtain rfl : x = y := by
      simpa [hx] using hy
    have hold := h.inOrder hx
    refine ⟨hold.held, hold.justified, fun _ => ⟨?_, fun hget => (hgets hget).elim⟩, hold.bare, hold.filled,
      hold.placed⟩
    simp [hwrapper, hgets]

/-- A draft is declared to the end with the type that its node gets. -/
lemma withType {id : DraftId} {x : Draft} {c : Container} {name doc : String}
    (h : Accounted s first root found (id :: pending) opened d) (hsound : (d.withType id c name doc).Sound)
    (hx : d.drafts[id]? = some x) (hwrapper : x.wrapper? = none) (hstarted : x.started = false)
    (hgets : d.store.GetsType x.node)
    (hparent : ∀ m, x.node.parent? = some m → ∃ y ∈ d.drafts, y.node.uri = m.uri)
    (hbelongs : d.store.Unambiguous → d.Belongs s x.node c) :
    Accounted s first root found pending opened (d.withType id c name doc) := by
  have hreads : d.store.Reads s.loader (d.withType id c name doc).store := .refl
  have hat {j : DraftId} (hj : j ≠ id) : (d.withType id c name doc).drafts[j]? = d.drafts[j]? := by
    simp only [Drafting.withType]
    exact List.getElem?_modify_ne _ _ (Ne.symm hj)
  have hself : (d.withType id c name doc).drafts[id]? = some { x with wrapper? := some d.model.types.length } := by
    simp [Drafting.withType, hx]
  have hnodes : d.KeepsNodes (d.withType id c name doc) := by
    intro j y hy
    by_cases hj : j = id
    · subst hj
      obtain rfl : x = y := by
        simpa [hx] using hy
      exact ⟨_, hself, rfl, fun hs => hs⟩
    · exact ⟨y, (hat hj).trans hy, rfl, fun hs => hs⟩
  -- no node has the type of the draft yet: a draft that is still being declared tells no type
  have htypes : d.KeepsTypes (d.withType id c name doc) := by
    rintro n r ⟨y, hy, huri, htype, htold⟩
    obtain ⟨j, hj⟩ := List.getElem?_of_mem hy
    have hne : j ≠ id := by
      rintro rfl
      obtain rfl : x = y := by
        simpa [hx] using hj
      rw [hwrapper] at htold
      simp [hgets] at htold
    exact ⟨y, List.mem_of_getElem? ((hat hne).trans hj), huri, htype, htold⟩
  refine h.change hsound rfl (fun j => hat) hnodes htypes (fun j y t _ hy ht => ?_)
    (fun j hj hnot => List.not_mem_cons_of_ne_of_not_mem hj hnot) (fun _ _ hj => hj) fun y hy => ?_
  · exact List.getElem?_append_left (h.sound.typed y (List.mem_of_getElem? hy) t ht)
  · obtain rfl : { x with wrapper? := some d.model.types.length } = y := by
      simpa [hself] using hy
    have hold := h.inOrder hx
    have hnew (t : TypeId) (ht : some d.model.types.length = some t) :
        (d.withType id c name doc).model.types[t]? = some { name, container := c, doc } := by
      rw [← Option.some.inj ht]
      simp [Drafting.withType]
    refine ⟨hold.held, hold.justified.mono h.rooted hreads hnodes, ?_, ?_, ?_, ?_⟩
    · refine fun _ => ⟨⟨fun _ => hgets, fun _ => rfl⟩, fun _ m hm => ?_⟩
      obtain ⟨z, hz, huri⟩ := hparent m hm
      obtain ⟨w, hw, hnode⟩ := hnodes.exists_mem hz
      exact ⟨w, hw, by rw [hnode, huri]⟩
    · exact fun _ t ht => ⟨_, hnew t ht, rfl, rfl, rfl⟩
    · intro hs
      simp [hstarted] at hs
    · exact fun hunambiguous t ht => ⟨_, hnew t ht, (hbelongs hunambiguous).mono htypes⟩

/-- A draft that is started is open. -/
lemma withStarted {id : DraftId} {x : Draft} (h : Accounted s first root found pending opened d)
    (hx : d.drafts[id]? = some x) (hunstarted : x.started = false) :
    Accounted s first root found pending (id :: opened) (d.withStarted id) := by
  have hstep : Step s d (d.withStarted id) := .start hx hunstarted
  have hreads : d.store.Reads s.loader (d.withStarted id).store := .refl
  have hat {j : DraftId} (hj : j ≠ id) : (d.withStarted id).drafts[j]? = d.drafts[j]? := by
    simp only [Drafting.withStarted]
    exact List.getElem?_modify_ne _ _ (Ne.symm hj)
  have hself : (d.withStarted id).drafts[id]? = some { x with started := true } := by
    simp [Drafting.withStarted, hx]
  have hnodes := hstep.keepsNodes
  have htypes : d.KeepsTypes (d.withStarted id) := by
    refine keepsTypes_of_drafts h.rooted hreads fun y hy => ?_
    obtain ⟨j, hj⟩ := List.getElem?_of_mem hy
    by_cases hid : j = id
    · subst hid
      obtain rfl : x = y := by
        simpa [hx] using hj
      exact ⟨_, List.mem_of_getElem? hself, rfl, rfl⟩
    · exact ⟨y, List.mem_of_getElem? ((hat hid).trans hj), rfl, rfl⟩
  refine h.change (hstep.sound h.sound) rfl (fun j => hat) hnodes htypes (fun _ _ _ _ _ _ => rfl)
    (fun _ _ hj => hj) (fun _ _ hj => List.not_mem_of_not_mem_cons hj) fun y hy => ?_
  obtain rfl : { x with started := true } = y := by
    simpa [hself] using hy
  have hold := h.inOrder hx
  refine ⟨hold.held, hold.justified.mono h.rooted hreads hnodes, fun hnot => ?_, ?_, ?_, fun hunambiguous => ?_⟩
  · have hrooted := h.rooted x (List.mem_of_getElem? hx)
    have hdeclared : (d.withStarted id).Declared x :=
      (hold.declared hnot).mono hrooted hreads hnodes
    exact ⟨hdeclared.typed, hdeclared.parent⟩
  · intro hs
    simp at hs
  · intro _ hnot
    simp at hnot
  · exact (hold.placed hunambiguous).mono htypes fun t ty _ hty => ⟨ty, hty, rfl⟩

/-- The type of a draft that is open may change. -/
lemma write {id : DraftId} {x : Draft} {type : TypeId} (h : Accounted s first root found pending opened d)
    (hx : d.drafts[id]? = some x) (hstarted : x.started = true) (hwrapper : x.wrapper? = some type)
    (hopen : id ∈ opened) (hsteps : Steps s d d') (hstore : d'.store = d.store) (hdrafts : d'.drafts = d.drafts)
    (hmodel : ∀ t, t ≠ type → d'.model.types[t]? = d.model.types[t]?) :
    Accounted s first root found pending opened d' := by
  have hnodes : d.KeepsNodes d' := .of_append (hdrafts ▸ List.prefix_refl _)
  have hreads : d.store.Reads s.loader d'.store := by
    rw [hstore]
  have htypes : d.KeepsTypes d' := by
    refine keepsTypes_of_drafts h.rooted hreads fun y hy => ⟨y, ?_, rfl, rfl⟩
    rwa [hdrafts]
  refine h.change (i := id) (hsteps.sound h.sound) hstore (fun j _ => by rw [hdrafts]) hnodes htypes ?_
    (fun _ _ hj => hj) (fun _ _ hj => hj) fun y hy => ?_
  · intro j y t hj hy ht
    refine hmodel t ?_
    rintro rfl
    exact hj (h.sound.owner hy hx ht hwrapper)
  · obtain rfl : x = y := by
      rw [hdrafts, hx] at hy
      exact Option.some.inj hy
    have hold := h.inOrder hx
    refine ⟨hreads.nodes_subset hold.held, hold.justified.mono h.rooted hreads hnodes, fun hnot => ?_, ?_, ?_,
      fun hunambiguous => ?_⟩
    · exact (hold.declared hnot).mono (h.rooted x (List.mem_of_getElem? hx)) hreads hnodes
    · intro hs
      simp [hstarted] at hs
    · exact fun _ hnot => (hnot hopen).elim
    · refine (hold.placed (hunambiguous.of_reads hreads)).mono htypes fun t ty _ hty => ?_
      obtain ⟨ty', hty', -, hcontainer⟩ := hsteps.keepsPlaces hty
      exact ⟨ty', hty', hcontainer⟩

/-- The ledger may change for drafts that are not started. -/
lemma refind (h : Accounted s first root found pending opened d) (found' : String → Findings)
    (hsame : ∀ x ∈ d.drafts, x.started = true → found' x.node.uri = found x.node.uri) :
    Accounted s first root found' pending opened d := by
  refine ⟨h.sound, h.reads, h.genuine, fun j x hx => ?_⟩
  have hold := h.inOrder hx
  refine ⟨hold.held, ?_, hold.declared, hold.bare, fun hs hnot => ?_, hold.placed⟩
  · obtain hroot | ⟨i, y, hij, hy, hgets, hreason⟩ := hold.justified
    · exact .inl hroot
    · refine .inr ⟨i, y, hij, hy, hgets, hreason.imp_left fun ⟨hs, hmem⟩ => ⟨hs, ?_⟩⟩
      rwa [hsame y (List.mem_of_getElem? hy) hs]
  · rw [hsame x (List.mem_of_getElem? hx) hs]
    exact hold.filled hs hnot

/-- A draft whose type is filled is no longer open. -/
lemma close {id : DraftId} (h : Accounted s first root found pending (id :: opened) d)
    (hfilled : ∀ x, d.drafts[id]? = some x → ∀ t, x.wrapper? = some t →
      ∃ ty, d.model.types[t]? = some ty ∧ Filled s.loader first d x.node ty (found x.node.uri)) :
    Accounted s first root found pending opened d := by
  refine ⟨h.sound, h.reads, h.genuine, fun j x hx => ?_⟩
  have hold := h.inOrder hx
  refine ⟨hold.held, hold.justified, hold.declared, hold.bare, fun hs hnot t ht => ?_, hold.placed⟩
  by_cases hj : j = id
  · subst hj
    exact hfilled x hx t ht
  · exact hold.filled hs (List.not_mem_cons_of_ne_of_not_mem hj hnot) t ht

end Accounted

end Drafting

end SchemaAccessors
