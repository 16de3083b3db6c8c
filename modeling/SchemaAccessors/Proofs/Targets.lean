import SchemaAccessors.Proofs.Containment
import SchemaAccessors.Generation

/-!
# What accessors are applied to

A getter for a property reads a raw object and one for an item a raw array. The field that they read holds what
the values of the node are known to be, and not what the accessors ask for: properties and items are given
accessors wherever a node lists them. So an array with properties and an object with items have accessors that
no value of theirs supports, and Java code for these casts between the classes of arrays and objects. This file
says that there are no others.
-/

namespace SchemaAccessors

/-! ## Targets -/

/-- The field that an expression reads a part of, and the raw kind whose values have such parts. -/
def Expr.target? : Expr → Option (Field × RawKind)
  | .property source .. | .presence source _ => some (source, .object)
  | .item source .. | .length source => some (source, .array)
  | .construct _ argument => argument.target?
  | .field _ | .literal _ | .foreign _ => none

/-- The target of an expression is read as an object or as an array. -/
lemma Expr.kind_of_target? {e : Expr} {target : Field × RawKind} (h : e.target? = some target) :
    target.2 = .object ∨ target.2 = .array := by
  induction e with
  | field | literal | foreign => simp [Expr.target?] at h
  | property | presence =>
    obtain rfl := Option.some.inj h
    exact .inl rfl
  | item | length =>
    obtain rfl := Option.some.inj h
    exact .inr rfl
  | construct id argument ih => exact ih h

/-- The kind of a field supports what is read from it: it is the one asked for, or no single one. -/
def Supports (target : Field × RawKind) : Prop :=
  target.1.type.raw = target.2 ∨ target.1.type.raw = .any

instance (target : Field × RawKind) : Decidable (Supports target) :=
  inferInstanceAs (Decidable (_ ∨ _))

lemma supports_field {raw k : RawKind} : Supports (raw.field, k) ↔ raw = k ∨ raw = .any :=
  Iff.rfl

@[simp] lemma TypeRef.target?_wrap (r : TypeRef) (lookup : Expr) : (r.wrap lookup).target? = lookup.target? := by
  cases h : r.wrapper? <;> simp [TypeRef.wrap, h, Expr.target?]

namespace WrapperType

/-- What the methods of a type read parts of. -/
def targets (t : WrapperType) : List (Field × RawKind) :=
  t.methods.filterMap fun m => m.body?.bind Expr.target?

lemma mem_targets {t : WrapperType} {p : Field × RawKind} :
    p ∈ t.targets ↔ ∃ m ∈ t.methods, m.body?.bind Expr.target? = some p :=
  List.mem_filterMap

end WrapperType

/-! ## The targets of a filled type -/

namespace Drafting

section Members

variable {d : Drafting} {n : SchemaNode} {loader : Loader} {first : Store} {t : WrapperType} {f : Findings}
  {target : Field × RawKind}

lemma PropertyMembers.exists_target {p : String × Entry} {ms : List Method} (h : d.PropertyMembers n p ms) :
    (∃ m ∈ ms, m.body?.bind Expr.target? = some target) ↔
      p.2.node?.isSome = true ∧ target = (n.raw.field, .object) := by
  cases h with
  | plain key value => simp [Entry.node?]
  | node key suffix known =>
    rw [propertyAccessors_eq]
    split <;> simp [Entry.node?, Expr.target?, eq_comm]

lemma ItemMembers.exists_target {e : Entry} {ms : List Method} (h : d.ItemMembers n e ms) :
    (∃ m ∈ ms, m.body?.bind Expr.target? = some target) ↔
      e.node?.isSome = true ∧ target = (n.raw.field, .array) := by
  cases h with
  | plain value => simp [Entry.node?]
  | node suffix known => simp [Entry.node?, itemAccessor_eq, Expr.target?, eq_comm]

/-- What holds of some member of a group does so of some member of the whole. -/
lemma exists_mem_flatten {α β : Type} {R : α → List β → Prop} {q : β → Prop} {P : α → Prop} {as : List α}
    {groups : List (List β)} (h : List.Forall₂ R as groups) (hR : ∀ a g, R a g → ((∃ b ∈ g, q b) ↔ P a)) :
    (∃ b ∈ groups.flatten, q b) ↔ ∃ a ∈ as, P a := by
  induction h with
  | nil => simp
  | cons hab _ ih => simp only [List.flatten_cons, List.mem_append, or_and_right, exists_or, ih, hR _ _ hab,
      List.exists_mem_cons_iff]

/-- A filled type reads from its one field: as an object for each property that stands for a node, and as an
array for each such item and for the size. -/
theorem Filled.mem_targets (h : Filled loader first d n t f) : target ∈ t.targets ↔
    (target = (n.raw.field, .object) ∧ ∃ p ∈ f.properties, p.2.node?.isSome = true) ∨
      (target = (n.raw.field, .array) ∧ ((∃ e ∈ f.items, e.node?.isSome = true) ∨ .array ∈ n.kinds)) := by
  obtain ⟨ps, is, hps, his, hhas⟩ := h.members
  have hproperties : (∃ m ∈ ps.flatten, m.body?.bind Expr.target? = some target) ↔
      ∃ p ∈ f.properties, p.2.node?.isSome = true ∧ target = (n.raw.field, .object) :=
    exists_mem_flatten hps fun _ _ hp => hp.exists_target
  have hitems : (∃ m ∈ is.flatten, m.body?.bind Expr.target? = some target) ↔
      ∃ e ∈ f.items, e.node?.isSome = true ∧ target = (n.raw.field, .array) :=
    exists_mem_flatten his fun _ _ he => he.exists_target
  have hsize : (∃ m ∈ sizeAccessors n, m.body?.bind Expr.target? = some target) ↔
      .array ∈ n.kinds ∧ target = (n.raw.field, .array) := by
    by_cases harray : .array ∈ n.kinds <;>
      simp [sizeAccessors, harray, sizeAccessor, Expr.target?, eq_comm]
  have hgetter : n.raw.getter.body?.bind Expr.target? = none := rfl
  rw [WrapperType.mem_targets, hhas.methods]
  simp only [List.exists_mem_cons_iff, List.mem_append, or_and_right, exists_or, hproperties, hitems, hsize, hgetter]
  grind

end Members

end Drafting

/-! ## Where the kind does not fit -/

/-- The values of a node are arrays and it has accessors for properties, or they are objects and it has some for
items. -/
def Findings.Mismatch (f : Findings) (raw : RawKind) : Prop :=
  (raw = .array ∧ ∃ p ∈ f.properties, p.2.node?.isSome = true) ∨
    (raw = .object ∧ ∃ e ∈ f.items, e.node?.isSome = true)

/-- Where arrays are among the types of a node, its raw kind supports a size. -/
lemma SchemaNode.raw_of_mem_kinds {n : SchemaNode} (h : .array ∈ n.kinds) : n.raw = .array ∨ n.raw = .any := by
  match hkinds : n.kinds with
  | [] => simp [hkinds] at h
  | [k] =>
    obtain rfl : .array = k := by simpa [hkinds] using h
    exact .inl (by rw [SchemaNode.raw, hkinds]; rfl)
  | _ :: _ :: _ => exact .inr (by rw [SchemaNode.raw, hkinds]; rfl)

/-- The raw kind of a node supports everything that its type reads, unless it is an array with accessors for
properties or an object with some for items. -/
theorem Drafting.Filled.supports_iff {d : Drafting} {n : SchemaNode} {loader : Loader} {first : Store}
    {t : WrapperType} {f : Findings} (h : Filled loader first d n t f) (hn : n.GetsType) :
    (∀ target ∈ t.targets, Supports target) ↔ ¬ f.Mismatch n.raw := by
  simp only [h.mem_targets, Findings.Mismatch]
  constructor
  · rintro hsupports (⟨harray, hproperty⟩ | ⟨hobject, hitem⟩)
    · simpa [harray] using supports_field.1 (hsupports _ (.inl ⟨rfl, hproperty⟩))
    · simpa [hobject] using supports_field.1 (hsupports _ (.inr ⟨rfl, .inl hitem⟩))
  · rintro hmismatch _ (⟨rfl, hproperty⟩ | ⟨rfl, hitem | hsize⟩)
    · rcases hn with hany | harray | ⟨hobject, -⟩
      · exact .inr hany
      · exact (hmismatch (.inl ⟨harray, hproperty⟩)).elim
      · exact .inl hobject
    · rcases hn with hany | harray | ⟨hobject, -⟩
      · exact .inr hany
      · exact .inl harray
      · exact (hmismatch (.inr ⟨hobject, hitem⟩)).elim
    · exact SchemaNode.raw_of_mem_kinds hsize

/-! ## Casts in Java code -/

namespace Render.Java

/-- The casts that cannot succeed: those between the classes of arrays and of objects. -/
def crossCasts : List String := ["((JSONObject) jsonArray)", "((JSONArray) jsonObject)"]

/-- A raw value is cast across where its kind does not support what is read, and nowhere else. -/
lemma castField_mem_crossCasts {n : SchemaNode} (hn : n.GetsType) {k : RawKind} (hk : k = .object ∨ k = .array) :
    castField n.raw.field k ∈ crossCasts ↔ ¬ Supports (n.raw.field, k) := by
  rcases hn with hraw | hraw | ⟨hraw, -⟩ <;> rcases hk with rfl | rfl <;> rw [hraw] <;> decide

lemma lookup_eq_append {target key text : String} {kind : RawKind} {default? : Option Json}
    (h : lookup target key kind default? = .ok text) : ∃ rest, text = target ++ rest := by
  cases default? with
  | none =>
    simp only [lookup, Except.ok.injEq] at h
    exact ⟨_, by rw [← h]; simp only [toString, String.append_assoc]; rfl⟩
  | some value =>
    obtain ⟨default, -, hrest⟩ := bind_eq_ok.1 h
    cases hkind : lookupKind kind with
    | none =>
      simp only [hkind, pure, Except.pure, Except.ok.injEq] at hrest
      exact ⟨_, by rw [← hrest]; simp only [toString, String.append_assoc]; rfl⟩
    | some name =>
      simp only [hkind, pure, Except.pure, Except.ok.injEq] at hrest
      exact ⟨_, by rw [← hrest]; simp only [toString, String.append_assoc]; rfl⟩

/-- The code of an expression holds the field that it reads a part of, with the cast to what is read. -/
theorem exists_castField_of_expr {m : Model} {e : Expr} {target : Field × RawKind} {text : String}
    (htarget : e.target? = some target) (h : expr m e = .ok text) :
    ∃ before after, text = before ++ castField target.1 target.2 ++ after := by
  induction e generalizing text with
  | field | literal | foreign => simp [Expr.target?] at htarget
  | property source key kind default? =>
    obtain rfl := Option.some.inj htarget
    obtain ⟨rest, rfl⟩ := lookup_eq_append h
    exact ⟨"", rest, by simp⟩
  | item source index kind default? =>
    obtain rfl := Option.some.inj htarget
    obtain ⟨rest, rfl⟩ := lookup_eq_append h
    exact ⟨"", rest, by simp⟩
  | presence source key =>
    obtain rfl := Option.some.inj htarget
    refine ⟨"", ".has(" ++ Json.encodeString key ++ ")", ?_⟩
    rw [← Except.ok.inj h]
    simp only [toString, String.append_assoc, String.empty_append]
  | length source =>
    obtain rfl := Option.some.inj htarget
    refine ⟨"", ".length()", ?_⟩
    rw [← Except.ok.inj h]
    simp only [toString, String.empty_append]
  | construct id argument ih =>
    obtain ⟨inner, hinner, htext⟩ := bind_eq_ok.1 h
    obtain ⟨before, after, rfl⟩ := ih htarget hinner
    refine ⟨"new " ++ typeName m id ++ "(" ++ before, after ++ ")", ?_⟩
    rw [← Except.ok.inj htext]
    simp only [toString, String.append_assoc]

end Render.Java

/-! ## A whole pass -/

namespace Drafting

section Pass

variable {s : Setting} {store : Store} {root : SchemaNode} {model : Model} {d : Drafting}

/-- Every accessor that a pass leaves behind reads a field whose raw kind supports that, except in the types of
arrays for which properties were found to stand for nodes, and of objects for which items were. In Java code the
field is cast across where its kind does not support what is read, and nowhere else. -/
theorem supports_iff_of_pass (hstore : store.Intact) (hroot : root ∈ store.nodes) (hmodel : model.types = [])
    (hok : outcome (pass s root) (start store model) = (.ok ⟨⟩, d)) :
    ∃ found : SchemaNode → Findings, ∀ t ty, d.model.types[t]? = some ty →
      ∃ x ∈ d.drafts, x.wrapper? = some t ∧ Store.Finds s.loader store d.store x.node (found x.node) ∧
        ((∀ target ∈ ty.targets, Supports target) ↔ ¬ (found x.node).Mismatch x.node.raw) ∧
        ∀ m ∈ ty.methods, ∀ e target, m.body? = some e → e.target? = some target → target.1 ∈ ty.fields ∧
          (Render.Java.castField target.1 target.2 ∈ Render.Java.crossCasts ↔ ¬ Supports target) ∧
          ∀ text, Render.Java.expr d.model e = .ok text →
            ∃ before after, text = before ++ Render.Java.castField target.1 target.2 ++ after := by
  have howned : d.Owned := ((leads_pass root).steps hok).owned (owned_start store hmodel)
  obtain ⟨⟨found, haccounted⟩, hstarted, -, hwhole⟩ := accounted_of_pass hstore.genuine hroot hok
  have hintact : d.store.Intact := haccounted.reads.intact hstore (hwhole hstore.whole)
  refine ⟨fun n => found n.uri, fun t ty hty => ?_⟩
  obtain ⟨x, hx, hwrapper⟩ := howned t (List.getElem?_eq_some_iff.1 hty).1
  obtain ⟨j, hj⟩ := List.getElem?_of_mem hx
  have hinorder := haccounted.inOrder hj
  obtain ⟨ty', hty', hfilled⟩ := hinorder.filled (hstarted x hx) List.not_mem_nil t hwrapper
  obtain rfl : ty = ty' := Option.some.inj (hty.symm.trans hty')
  have hgets : x.node.GetsType := by
    rw [← hintact.getsType_iff hinorder.held, ← (hinorder.declared List.not_mem_nil).typed, hwrapper]
    rfl
  refine ⟨x, hx, hwrapper, hintact.finds hinorder.held hfilled.properties hfilled.items,
    hfilled.supports_iff hgets, ?_⟩
  intro m hm e target he htarget
  have hmem : target ∈ ty.targets := WrapperType.mem_targets.2 ⟨m, hm, by rw [he]; exact htarget⟩
  have hfield : target.1 = x.node.raw.field := by
    rcases hfilled.mem_targets.1 hmem with ⟨rfl, -⟩ | ⟨rfl, -⟩ <;> rfl
  obtain ⟨ps, is, -, -, hhas⟩ := hfilled.members
  refine ⟨by rw [hhas.fields, hfield]; exact List.mem_singleton_self _, ?_, fun text htext => ?_⟩
  · obtain ⟨f, k⟩ := target
    obtain rfl : f = x.node.raw.field := hfield
    exact Render.Java.castField_mem_crossCasts hgets (Expr.kind_of_target? htarget)
  · exact Render.Java.exists_castField_of_expr htarget htext

end Pass

/-- The array of the second document is read by index and by size, which its kind supports. -/
theorem supports_iff_of_two_documents :
    Sample.last.model.types.map (fun t => t.targets.map fun p => (p.1.name, p.2)) =
        [[("jsonObject", .object), ("jsonObject", .object), ("jsonObject", .object), ("jsonObject", .object)], [],
          [("jsonArray", .array), ("jsonArray", .array), ("jsonArray", .array), ("jsonArray", .array)]] ∧
      ∃ found : SchemaNode → Findings, ∀ t ty, Sample.last.model.types[t]? = some ty →
        ∃ x ∈ Sample.last.drafts, x.wrapper? = some t ∧
          Store.Finds Sample.setting.loader Sample.store Sample.last.store x.node (found x.node) ∧
          ((∀ target ∈ ty.targets, Supports target) ↔ ¬ (found x.node).Mismatch x.node.raw) ∧
          ∀ m ∈ ty.methods, ∀ e target, m.body? = some e → e.target? = some target → target.1 ∈ ty.fields ∧
            (Render.Java.castField target.1 target.2 ∈ Render.Java.crossCasts ↔ ¬ Supports target) ∧
            ∀ text, Render.Java.expr Sample.last.model e = .ok text →
              ∃ before after, text = before ++ Render.Java.castField target.1 target.2 ++ after :=
  ⟨by decide +kernel, supports_iff_of_pass Sample.intact Sample.root_mem rfl Sample.passes⟩

namespace Listed

/-- An array that lists a property. -/
def members : Members :=
  [("type", .str "array"), ("properties", .obj [("a", .obj [("type", .str "string")])])]

def root : SchemaNode :=
  .root ⟨Generation.defaultUri, [], Generation.defaultUri, Generation.defaultUri, members⟩

def store : Store :=
  ⟨[⟨Generation.defaultUri, survey (.root Generation.defaultUri) (.obj members)⟩]⟩

/-- The pass over the document for Java, with no other document to be found. -/
def begun : Setting × Drafting :=
  beginPass ⟨[], ⟨[]⟩, .top⟩ { language := .str "java" } .java "" store

def last : Drafting :=
  (outcome (pass begun.1 root) begun.2).2

end Listed

/-- The getter and the checker for the property of an array cast the array to an object. -/
theorem cast_of_array_with_property :
    outcome (pass Listed.begun.1 Listed.root) Listed.begun.2 = (.ok ⟨⟩, Listed.last) ∧
      Listed.last.model.types.map (·.targets) =
        [[(RawKind.array.field, .object), (RawKind.array.field, .object), (RawKind.array.field, .array)]] ∧
      ¬ Supports (RawKind.array.field, .object) ∧
      Listed.last.model.types.map (fun ty => ty.methods.map fun m =>
          m.body?.bind fun e => (Render.Java.expr Listed.last.model e).toOption) =
        [[some "jsonArray", some "((JSONObject) jsonArray).getString(\"a\")",
          some "((JSONObject) jsonArray).has(\"a\")", some "jsonArray.length()"]] :=
  ⟨eq_ok_of_toBool (by decide +kernel), by decide +kernel, by decide, by decide +kernel⟩

end Drafting

end SchemaAccessors
