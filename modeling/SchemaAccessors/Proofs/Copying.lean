import SchemaAccessors.Proofs.Containment
import SchemaAccessors.Proofs.Filling
import SchemaAccessors.Proofs.Printing
import SchemaAccessors.Proofs.Wording

/-!
# What types copy

A pass that succeeds leaves types with names of letters and digits, and all else that their code copies comes from
the nodes of the store: the keys of properties, the defaults of what properties and items stand for, and the nodes
that the documentation shows. So what holds of all texts in the documents holds of the texts in the code.
-/

namespace SchemaAccessors

/-! ## Texts of a node -/

/-- A text is a key or a string somewhere in a node. -/
def Store.HasText (s : Store) (text : String) : Prop :=
  ∃ n ∈ s.nodes, text ∈ (Json.obj n.members).texts

lemma SchemaNode.texts_literal? {n : SchemaNode} {text : String} (h : text ∈ n.literal?.elim [] Json.texts) :
    text ∈ (Json.obj n.members).texts := by
  have hdefault {value : Json} (hvalue : n.default? = some value) (htext : text ∈ value.texts) :
      text ∈ (Json.obj n.members).texts :=
    Json.texts_subset_of_get? hvalue htext
  unfold literal? at h
  split at h
  · cases h
  · cases h
  · cases h
  · next hvalue => exact hdefault hvalue h
  · cases h

lemma Store.mem_texts_of_propertyEntries {s : Store} {n : SchemaNode} {p : String × Entry}
    (h : p ∈ s.propertyEntries n) : p.1 ∈ (Json.obj n.members).texts := by
  unfold propertyEntries at h
  split at h
  · next properties hproperties =>
    obtain ⟨q, hq, hp⟩ := List.mem_filterMap.1 h
    obtain ⟨e, -, rfl⟩ := Option.map_eq_some_iff.1 hp
    exact Json.texts_subset_of_get? hproperties (Json.mem_memberTexts hq).1
  · cases h

lemma names_wrap (r : TypeRef) (lookup : Expr) : (r.wrap lookup).names = lookup.names := by
  unfold TypeRef.wrap
  split <;> rfl

lemma copied_wrap (r : TypeRef) (lookup : Expr) : (r.wrap lookup).copied = lookup.copied := by
  unfold TypeRef.wrap
  split <;> rfl

namespace Drafting

section Filled

variable {loader : Loader} {first : Store} {d : Drafting} {n : SchemaNode} {t : WrapperType} {f : Findings}

/-- The forms of methods on a type that is filled. -/
inductive Written (d : Drafting) (n : SchemaNode) (method : Method) : Prop
  | getter (h : method = n.raw.getter)
  | property (key : String) (required : Bool) (m : SchemaNode) (r : TypeRef) (suffix : String)
      (declared : key ∈ (Json.obj n.members).texts) (held : m ∈ d.store.nodes)
      (h : method ∈ propertyAccessors n.raw key required m.literal? r suffix)
  | item (m : SchemaNode) (r : TypeRef) (suffix : String) (held : m ∈ d.store.nodes)
      (h : method = itemAccessor n.raw m.literal? r suffix)
  | size (h : method = sizeAccessor n.raw)

lemma Filled.written (h : Filled loader first d n t f) {method : Method} (hmethod : method ∈ t.methods) :
    Written d n method := by
  obtain ⟨ps, is, hps, his, hhas⟩ := h.members
  rw [hhas.methods] at hmethod
  rcases List.mem_cons.1 hmethod with rfl | hmethod
  · exact .getter rfl
  rcases List.mem_append.1 hmethod with hmethod | hmethod
  · rcases List.mem_append.1 hmethod with hmethod | hmethod
    · obtain ⟨new, hnew, hmethod⟩ := List.mem_flatten.1 hmethod
      obtain ⟨p, hp, hmembers⟩ := Store.exists_of_mem_right hps hnew
      obtain ⟨q, hq, hkey, hstood⟩ := Store.exists_of_mem_right h.properties hp
      have hholds := hstood.holds (Store.holds_of_mem_propertyEntries hq)
      cases hmembers with
      | plain key value => cases hmethod
      | node key suffix known =>
        have hdeclared := Store.mem_texts_of_propertyEntries hq
        rw [← hkey] at hdeclared
        exact .property key _ _ _ suffix hdeclared hholds.mem_nodes hmethod
    · obtain ⟨new, hnew, hmethod⟩ := List.mem_flatten.1 hmethod
      obtain ⟨e, he, hmembers⟩ := Store.exists_of_mem_right his hnew
      obtain ⟨e', he', hstood⟩ := Store.exists_of_mem_right h.items he
      have hholds := hstood.holds (Store.holds_of_mem_itemEntries he')
      cases hmembers with
      | plain value => cases hmethod
      | node suffix known => exact .item _ _ suffix hholds.mem_nodes (List.mem_singleton.1 hmethod)
  · unfold sizeAccessors at hmethod
    split at hmethod
    · exact .size (List.mem_singleton.1 hmethod)
    · cases hmethod

/-- The names in a method are its own, that of the field, and that of the index. -/
lemma Written.names {method : Method} (h : Written d n method) :
    method.names ⊆ [method.name, n.raw.field.name, indexParameter.name] := by
  cases h with
  | getter h => simp [h, Method.names, RawKind.getter, Expr.names]
  | property key required m r suffix declared held h =>
    rw [propertyAccessors_eq] at h
    rcases List.mem_cons.1 h with rfl | h
    · simp [Method.names, names_wrap, Expr.names]
    · split at h
      · rw [List.mem_singleton.1 h]
        simp [Method.names, Expr.names]
      · cases h
  | item m r suffix held h => simp [h, Method.names, itemAccessor_eq, names_wrap, Expr.names]
  | size h => simp [h, Method.names, sizeAccessor, Expr.names]

/-- What the class of a filled type declares and uses inside is named like its methods, the field, or the index. -/
lemma Filled.tail_names_subset {loader : Loader} {first : Store} {d : Drafting} {n : SchemaNode} {t : WrapperType}
    {f : Findings} (h : Filled loader first d n t f) :
    t.names.tail ⊆ n.raw.field.name :: indexParameter.name :: t.methods.map (·.name) := by
  obtain ⟨ps, is, -, -, hhas⟩ := h.members
  intro name hname
  rw [WrapperType.names, List.tail_cons, hhas.fields, hhas.constructors, List.mem_append, List.mem_append] at hname
  rcases hname with (hname | hname) | hname
  · rw [List.mem_singleton.1 hname]
    simp
  · have hfield : name = n.raw.field.name := by simpa [Constructor.names, RawKind.constructor] using hname
    simp [hfield]
  · obtain ⟨method, hmethod, hname⟩ := List.mem_flatMap.1 hname
    have hown : method.name ∈ t.methods.map (·.name) := List.mem_map_of_mem hmethod
    have hparts := (h.written hmethod).names hname
    simp only [List.mem_cons, List.not_mem_nil, or_false] at hparts
    rcases hparts with rfl | rfl | rfl
    · simp [hown]
    · simp
    · simp

/-- The names that the class of a filled type declares and uses are its own, those of its methods, and those of the
field and of the index. -/
lemma Filled.names_subset {loader : Loader} {first : Store} {d : Drafting} {n : SchemaNode} {t : WrapperType}
    {f : Findings} (h : Filled loader first d n t f) :
    t.names ⊆ t.name :: n.raw.field.name :: indexParameter.name :: t.methods.map (·.name) :=
  List.cons_subset_cons _ h.tail_names_subset

/-- The texts in a method are texts of nodes. -/
lemma Written.hasText {method : Method} (h : Written d n method) (hn : n ∈ d.store.nodes) {text : String}
    (htext : text ∈ method.copied) : d.store.HasText text := by
  cases h with
  | getter h =>
    rw [h] at htext
    cases htext
  | property key required m r suffix declared held h =>
    rw [propertyAccessors_eq] at h
    rcases List.mem_cons.1 h with rfl | h
    · have hparts : text ∈ key :: m.literal?.elim [] Json.texts := by
        simpa [Method.copied, copied_wrap, Expr.copied] using htext
      rcases List.mem_cons.1 hparts with rfl | hdefault
      · exact ⟨n, hn, declared⟩
      · exact ⟨m, held, m.texts_literal? hdefault⟩
    · split at h
      · rw [List.mem_singleton.1 h] at htext
        obtain rfl : text = key := by simpa [Method.copied, Expr.copied] using htext
        exact ⟨n, hn, declared⟩
      · cases h
  | item m r suffix held h =>
    have hdefault : text ∈ m.literal?.elim [] Json.texts := by
      simpa [h, Method.copied, itemAccessor_eq, copied_wrap, Expr.copied] using htext
    exact ⟨m, held, m.texts_literal? hdefault⟩
  | size h =>
    rw [h] at htext
    cases htext

end Filled

/-- A type as a pass leaves it: with a constructor, names of letters and digits, and texts of the nodes that it is
about. -/
structure Told (s : Setting) (d : Drafting) (t : WrapperType) : Prop where
  plain : t.Plain
  constructed : t.constructors ≠ []
  documented : ∃ n ∈ d.store.nodes, t.doc = documentation s n
  copied : ∀ text ∈ t.copied, d.store.HasText text

lemma Filled.told {s : Setting} {first : Store} {d : Drafting} {n : SchemaNode} {t : WrapperType} {f : Findings}
    (h : Filled s.loader first d n t f) (hn : n ∈ d.store.nodes) (hworded : d.Worded s) (ht : t ∈ d.model.types)
    (hdocumented : ∃ m ∈ d.store.nodes, t.doc = documentation s m) : d.Told s t := by
  obtain ⟨ps, is, -, -, hhas⟩ := h.members
  have hindex : ∀ c ∈ indexParameter.name.toList, c.isAlphanum = true := by decide
  refine ⟨?_, by simp [hhas.constructors], hdocumented, fun text htext => ?_⟩
  · intro name hname
    rcases List.mem_cons.1 (h.names_subset hname) with rfl | hname
    · exact Naming.all_isAlphanum_of_isTypeName (hworded.spelled t ht)
    rcases List.mem_cons.1 hname with rfl | hname
    · exact n.raw.isAlphanum_field
    rcases List.mem_cons.1 hname with rfl | hname
    · exact hindex
    · obtain ⟨method, hmethod, rfl⟩ := List.mem_map.1 hname
      exact (hworded.named t ht method hmethod).isAlphanum
  · obtain ⟨method, hmethod, htext⟩ := List.mem_flatMap.1 htext
    exact (h.written hmethod).hasText hn htext

/-- A pass that succeeds has filled each type for the node of its draft, which is one that gets a type. -/
lemma filled_of_pass {s : Setting} {first : Store} {root : SchemaNode} {found : String → Findings}
    {d d' : Drafting} (haccounted : Accounted s first root found [] [] d) (howned : d.Owned)
    (hroot : root ∈ d.store.nodes) (hok : outcome (pass s root) d = (.ok ⟨⟩, d')) :
    (∀ x ∈ d'.drafts, x.node ∈ d'.store.nodes) ∧
      ∀ t ∈ d'.model.types, ∃ n ∈ d'.store.nodes, d'.store.GetsType n ∧ ∃ f, Filled s.loader first d' n t f := by
  obtain ⟨⟨found', haccounted'⟩, hstarted, -⟩ := haccounted.of_pass hroot hok
  have howned' := ((leads_pass root).steps hok).owned howned
  refine ⟨fun x hx => ?_, fun t ht => ?_⟩
  · obtain ⟨j, hj⟩ := List.getElem?_of_mem hx
    exact (haccounted'.inOrder hj).held
  · obtain ⟨i, hi⟩ := List.getElem?_of_mem ht
    obtain ⟨x, hx, hwrapper⟩ := howned' i (Model.lt_of_getElem? hi)
    obtain ⟨j, hj⟩ := List.getElem?_of_mem hx
    have hinOrder := haccounted'.inOrder hj
    obtain ⟨ty, hty, hfilled⟩ := hinOrder.filled (hstarted x hx) List.not_mem_nil i hwrapper
    obtain rfl : t = ty := Option.some.inj (hi.symm.trans hty)
    have hgets : d'.store.GetsType x.node := (hinOrder.declared List.not_mem_nil).typed.1 (by rw [hwrapper]; rfl)
    exact ⟨x.node, hinOrder.held, hgets, _, hfilled⟩

/-- A pass that succeeds leaves all types like this. -/
theorem told_of_pass {s : Setting} {first : Store} {root : SchemaNode} {found : String → Findings}
    {d d' : Drafting} (haccounted : Accounted s first root found [] [] d) (howned : d.Owned) (hworded : d.Worded s)
    (hroot : root ∈ d.store.nodes) (hok : outcome (pass s root) d = (.ok ⟨⟩, d')) :
    ∀ t ∈ d'.model.types, d'.Told s t := by
  obtain ⟨hheld, hfilled⟩ := filled_of_pass haccounted howned hroot hok
  have hworded' : d'.Worded s := outcome_leads (keepsWording_pass root d) hok hworded
  intro t ht
  obtain ⟨n, hn, -, f, hf⟩ := hfilled t ht
  obtain ⟨x, hx, hdoc⟩ := hworded'.documented t ht
  exact hf.told hn hworded' ht ⟨x.node, hheld x hx, hdoc⟩

end Drafting

end SchemaAccessors
