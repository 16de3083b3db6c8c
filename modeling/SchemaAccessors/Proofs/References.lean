import SchemaAccessors.Proofs.Containment
import SchemaAccessors.Proofs.Mentions
import SchemaAccessors.Proofs.Scoping

/-!
# References of a pass

Every type that the code of a class refers to after a pass is the type of a draft, so it is in the model. The
names of the model are apart and spelled alike, and all of it is in one namespace; so each reference means the
type that it stands for, wherever it is written.
-/

namespace SchemaAccessors

/-! ## What members mention -/

lemma mentions_wrap {r : TypeRef} {lookup : Expr} (h : lookup.mentions = []) :
    (r.wrap lookup).mentions = r.mentions := by
  unfold TypeRef.wrap TypeRef.mentions
  cases r.wrapper? with
  | none => exact h
  | some type => exact congrArg (type :: ·) h

lemma mentions_propertyAccessors {raw : RawKind} {key suffix : String} {required : Bool} {default? : Option Json}
    {r : TypeRef} {method : Method} (h : method ∈ propertyAccessors raw key required default? r suffix) :
    method.mentions ⊆ r.mentions := by
  rw [propertyAccessors_eq] at h
  rcases List.mem_cons.1 h with rfl | h
  · have hbody : (r.wrap (.property raw.field key r.raw default?)).mentions = r.mentions := mentions_wrap rfl
    simp [Method.mentions, Parameter.mentions, hbody]
  · split at h
    · rw [List.mem_singleton.1 h]
      exact List.nil_subset _
    · cases h

lemma mentions_itemAccessor (raw : RawKind) (default? : Option Json) (r : TypeRef) (suffix : String) :
    (itemAccessor raw default? r suffix).mentions ⊆ r.mentions := by
  have hbody : (r.wrap (.item raw.field indexParameter r.raw default?)).mentions = r.mentions := mentions_wrap rfl
  have hindex : Parameter.mentions [indexParameter] = [] := rfl
  simp [Method.mentions, itemAccessor_eq, hbody, hindex]

lemma mentions_sizeAccessors {n : SchemaNode} {method : Method} (h : method ∈ sizeAccessors n) :
    method.mentions = [] := by
  unfold sizeAccessors at h
  split at h
  · rw [List.mem_singleton.1 h]
    rfl
  · cases h

namespace Drafting

lemma TypeOf.hasDraft {d : Drafting} {n : SchemaNode} {r : TypeRef} (h : d.TypeOf n r) {t : TypeId}
    (ht : t ∈ r.mentions) : d.HasDraft t := by
  obtain ⟨y, hy, -, rfl, -⟩ := h
  exact ⟨y, hy, by simpa [TypeRef.mentions, Draft.type] using ht⟩

/-- A type that is filled mentions types of drafts only. -/
lemma Filled.hasDraft {loader : Loader} {first : Store} {d : Drafting} {n : SchemaNode} {ty : WrapperType}
    {f : Findings} (h : Filled loader first d n ty f) {t : TypeId} (ht : t ∈ ty.mentions) : d.HasDraft t := by
  obtain ⟨ps, is, hps, his, hhas⟩ := h.members
  have hdata :
      ty.fields.flatMap (·.type.mentions) ++ ty.constructors.flatMap (Parameter.mentions ·.parameters) = [] := by
    rw [hhas.fields, hhas.constructors]
    rfl
  rw [WrapperType.mentions, hdata, List.nil_append, hhas.methods] at ht
  obtain ⟨method, hmethod, ht⟩ := List.mem_flatMap.1 ht
  rcases List.mem_cons.1 hmethod with rfl | hmethod
  · cases ht
  rcases List.mem_append.1 hmethod with hmethod | hmethod
  · rcases List.mem_append.1 hmethod with hmethod | hmethod
    · obtain ⟨new, hnew, hmethod⟩ := List.mem_flatten.1 hmethod
      obtain ⟨p, -, hmembers⟩ := Store.exists_of_mem_right hps hnew
      cases hmembers with
      | plain key value => cases hmethod
      | node key suffix known => exact known.hasDraft (mentions_propertyAccessors hmethod ht)
    · obtain ⟨new, hnew, hmethod⟩ := List.mem_flatten.1 hmethod
      obtain ⟨e, -, hmembers⟩ := Store.exists_of_mem_right his hnew
      cases hmembers with
      | plain value => cases hmethod
      | node suffix known =>
        rw [List.mem_singleton.1 hmethod] at ht
        exact known.hasDraft (mentions_itemAccessor _ _ _ _ ht)
  · rw [mentions_sizeAccessors hmethod] at ht
    cases ht

/-! ## What holds of all types -/

/-- What the types of a pass have in common: they are spelled like names of types, and those directly in a namespace
are in the one of the pass. -/
structure Uniform (s : Setting) (d : Drafting) : Prop where
  spelled : d.model.Spelled
  within : d.model.Within s.namespaceIndex

lemma uniform_start (s : Setting) (store : Store) {model : Model} (h : model.types = []) :
    (start store model).Uniform s := by
  constructor
  · intro t ht
    simp [start, h] at ht
  · intro t ht
    simp [start, h] at ht

/-- Every change keeps this. -/
theorem Step.uniform {s : Setting} {d d' : Drafting} (h : Step s d d') (hd : d.Uniform s) : d'.Uniform s := by
  cases h with
  | @declare id x c name doc found undeclared admitted spelled free single =>
    constructor
    · intro t ht
      rcases List.mem_append.1 ht with ht | ht
      · exact hd.spelled t ht
      · rw [List.mem_singleton.1 ht]
        exact spelled
    · intro t ht htop
      rcases List.mem_append.1 ht with ht | ht
      · exact hd.within t ht htop
      · rw [List.mem_singleton.1 ht] at htop ⊢
        rcases admitted with rfl | ⟨y, -, o, -, rfl⟩
        · rfl
        · cases htop
  | extend same =>
    constructor
    · intro t ht
      obtain ⟨u, hu, hname, -⟩ := Model.mem_of_update same ht
      rw [← hname]
      exact hd.spelled u hu
    · intro t ht htop
      obtain ⟨u, hu, -, hcontainer⟩ := Model.mem_of_update same ht
      rw [← hcontainer]
      exact hd.within u hu ((Model.isTopLevel_congr hcontainer).trans htop)
  | _ => exact ⟨hd.spelled, hd.within⟩

theorem Steps.uniform {s : Setting} {d d' : Drafting} (h : Steps s d d') (hd : d.Uniform s) : d'.Uniform s := by
  induction h with
  | refl => exact hd
  | tail _ step ih => exact step.uniform ih

lemma Steps.namespaces {s : Setting} {d d' : Drafting} (h : Steps s d d') :
    d'.model.namespaces = d.model.namespaces := by
  induction h with
  | refl => rfl
  | tail _ step ih =>
    rw [← ih]
    cases step <;> rfl

/-! ## A whole pass -/

section Pass

variable (loader : Loader) (config : Config) (l : Language) (namespaceName : String) (store : Store)

lemma snd_beginPass : (beginPass loader config l namespaceName store).2 =
    start store (beginPass loader config l namespaceName store).2.model := by
  cases l <;> rfl

lemma namespaceIndex_beginPass : (beginPass loader config l namespaceName store).1.namespaceIndex = 0 := by
  cases l <;> rfl

lemma namespaces_beginPass :
    (beginPass loader config l namespaceName store).2.model.namespaces = [namespaceName] := by
  cases l <;> rfl

end Pass

/-- After a pass that succeeds, for either language and without a package name for Java, the name that code uses
for a type means that type in whatever class it is used. -/
theorem resolve_of_pass {loader : Loader} {config : Config} {l : Language} {namespaceName : String} {store : Store}
    {root : SchemaNode} {d : Drafting} (hunnamed : l = .java → namespaceName = "") (hstore : store.Genuine)
    (hroot : root ∈ store.nodes)
    (hok : outcome (pass (beginPass loader config l namespaceName store).1 root)
      (beginPass loader config l namespaceName store).2 = (.ok ⟨⟩, d)) :
    ∀ i t, d.model.types[i]? = some t → ∀ id ∈ t.mentions,
      (l.scope d.model i).resolve (l.typeName d.model id) = some id := by
  have hempty := types_beginPass loader config l namespaceName store
  have hreserved := reservedTypes_beginPass loader config l namespaceName store
  have hnamespaces := namespaces_beginPass loader config l namespaceName store
  rw [snd_beginPass] at hok
  have hsteps := (leads_pass root).steps hok
  have hspaces : d.model.namespaces = [namespaceName] := hsteps.namespaces.trans hnamespaces
  have hapart := hsteps.namesApart (namesApart_start hempty)
  have huniform := hsteps.uniform (uniform_start _ store hempty)
  have howned := hsteps.owned (owned_start store hempty)
  obtain ⟨⟨found, haccounted⟩, hstarted, -⟩ := accounted_of_pass hstore hroot hok
  intro i t ht id hid
  have hlt : id < d.model.types.length := by
    obtain ⟨x, hx, hwrapper⟩ := howned i (Model.lt_of_getElem? ht)
    obtain ⟨j, hj⟩ := List.getElem?_of_mem hx
    obtain ⟨ty, hty, hfilled⟩ := (haccounted.inOrder hj).filled (hstarted x hx) List.not_mem_nil i hwrapper
    obtain rfl : t = ty := Option.some.inj (ht.symm.trans hty)
    obtain ⟨y, hy, htyped⟩ := hfilled.hasDraft hid
    exact hapart.sound.typed y hy id htyped
  refine Language.resolve_typeName hapart.named hapart.layered huniform.within huniform.spelled
    (hsteps.reservedTypes.trans hreserved) (fun hjava name hname => ?_) ht (List.getElem?_eq_getElem hlt)
  rw [hspaces] at hname
  rw [List.mem_singleton.1 hname, hunnamed hjava]

namespace Sample

/-- The pass over the two documents for Java, without a package. -/
def unnamed : Setting × Drafting :=
  beginPass setting.loader {} .java "" store

def unnamedLast : Drafting :=
  (outcome (pass unnamed.1 root) unnamed.2).2

lemma passes_unnamed : outcome (pass unnamed.1 root) unnamed.2 = (.ok ⟨⟩, unnamedLast) :=
  eq_ok_of_toBool (by decide +kernel)

end Sample

/-- From inside the list, code refers to the root of the other document as well as to the list itself. -/
theorem resolve_of_pass_of_two_documents :
    Sample.unnamedLast.model.types.map (fun t => t.mentions.map (Language.java.typeName Sample.unnamedLast.model)) =
        [["S", "S", "T.List", "T.List"], [], ["S", "S", "T.List", "T.List"]] ∧
      ∀ i t, Sample.unnamedLast.model.types[i]? = some t → ∀ id ∈ t.mentions,
        (Language.java.scope Sample.unnamedLast.model i).resolve
          (Language.java.typeName Sample.unnamedLast.model id) = some id :=
  ⟨by decide +kernel, resolve_of_pass (fun _ => rfl) Sample.intact.genuine Sample.root_mem Sample.passes_unnamed⟩

end Drafting

end SchemaAccessors
