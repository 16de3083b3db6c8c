import SchemaAccessors.Proofs.Declaring

/-!
# Writing members

Members are written one after another, each under a name that is free on its type. What is written where writing
succeeds is said here without the search for names: the type has the members it had, and the new ones behind
them.
-/

namespace SchemaAccessors

namespace WrapperType

lemma memberNames_withMethods (t : WrapperType) (methods : List Method) :
    (t.withMethods methods).memberNames = t.memberNames ++ methods.map (·.name) := by
  simp [memberNames, withMethods]

/-- A method of a new name comes behind the others. -/
lemma Has.withMethod {t : WrapperType} {raw : RawKind} {methods : List Method} (h : t.Has raw methods)
    {method : Method} (hname : method.name ∉ t.memberNames) :
    (t.withMethods [method]).Has raw (methods ++ [method]) where
  fields := h.fields
  constructors := h.constructors
  methods := by
    show t.methods ++ [method] = raw.getter :: (methods ++ [method])
    rw [h.methods]
    rfl
  distinct := by
    rw [memberNames_withMethods]
    refine h.distinct.append (List.nodup_singleton _) ?_
    simpa using hname

lemma notMem_memberNames {t : WrapperType} {name : String} (h : t.declares name = false) :
    name ∉ t.memberNames := by
  intro hmem
  simp only [declares, Bool.or_eq_false_iff, List.any_eq_false, decide_eq_true_eq] at h
  rcases List.mem_append.1 hmem with hmem | hmem
  · obtain ⟨field, hf, hname⟩ := List.mem_map.1 hmem
    exact h.2 field hf hname
  · obtain ⟨method, hm, hname⟩ := List.mem_map.1 hmem
    exact h.1 method hm hname

end WrapperType

namespace Drafting

variable {s : Setting} {type : TypeId} {d d' : Drafting}

/-! ## Writing on a type -/

/-- A type has a raw value and further methods in a state. -/
def Holds (d : Drafting) (type : TypeId) (raw : RawKind) (methods : List Method) : Prop :=
  ∃ t, d.model.types[type]? = some t ∧ t.Has raw methods

/-- Nothing is changed but the trace and one type. -/
structure Writes (s : Setting) (type : TypeId) (d d' : Drafting) : Prop where
  steps : Steps s d d'
  store : d'.store = d.store
  drafts : d'.drafts = d.drafts
  types : ∀ t, t ≠ type → d'.model.types[t]? = d.model.types[t]?

namespace Writes

lemma refl (d : Drafting) : Writes s type d d where
  steps := .refl
  store := rfl
  drafts := rfl
  types _ _ := rfl

lemma trans {d'' : Drafting} (h : Writes s type d d') (h' : Writes s type d' d'') : Writes s type d d'' where
  steps := h.steps.trans h'.steps
  store := h'.store.trans h.store
  drafts := h'.drafts.trans h.drafts
  types t ht := (h'.types t ht).trans (h.types t ht)

lemma of_trace (trace : Trace) : Writes s type d { d with trace } where
  steps := .single (.record trace)
  store := rfl
  drafts := rfl
  types _ _ := rfl

lemma of_change {f : WrapperType → WrapperType} (same : ∀ t, (f t).name = t.name ∧ (f t).container = t.container) :
    Writes s type d (d.withChange type f) where
  steps := .single (.extend same)
  store := rfl
  drafts := rfl
  types _ ht := List.getElem?_modify_ne _ _ (Ne.symm ht)

lemma keeps (h : Writes s type d d') : Keeps s (· = type) d d' where
  steps := h.steps
  whole hwhole := by rwa [h.store]
  drafts j x hx := ⟨x, by rwa [h.drafts], rfl, rfl, id⟩
  types j x t _ _ _ hfree := h.types t hfree

end Writes

lemma Holds.of_trace {raw : RawKind} {methods : List Method} (h : d.Holds type raw methods) (trace : Trace) :
    Holds { d with trace } type raw methods := h

lemma getElem?_withChange {f : WrapperType → WrapperType} {t : WrapperType} (h : d.model.types[type]? = some t) :
    (d.withChange type f).model.types[type]? = some (f t) := by
  simp [withChange, Model.update, h]

lemma declares_eq_false {name : String} (h : d.model.hasMember type name = false) {t : WrapperType}
    (ht : d.model.types[type]? = some t) : t.declares name = false := by
  simp only [Model.hasMember, ht, Option.any_some, Bool.or_eq_false_iff] at h
  exact h.2

lemma of_addMethod {method : Method} (h : outcome (addMethod type method) d = (.ok ⟨⟩, d')) :
    Writes s type d d' ∧
      ∀ raw methods, d.Holds type raw methods → d'.Holds type raw (methods ++ [method]) := by
  obtain ⟨hfree, rfl⟩ := of_addMethod_eq_ok h
  refine ⟨.of_change fun _ => ⟨rfl, rfl⟩, fun raw methods ⟨t, ht, hhas⟩ => ?_⟩
  exact ⟨_, getElem?_withChange ht, hhas.withMethod (WrapperType.notMem_memberNames (declares_eq_false hfree ht))⟩

lemma of_writeScaffold {raw : RawKind} (h : outcome (writeScaffold type raw) d = (.ok ⟨⟩, d')) :
    Writes s type d d' ∧ ((∃ t, d.model.types[type]? = some t ∧ t.Bare) → d'.Holds type raw []) := by
  rw [outcome_writeScaffold] at h
  split_ifs at h with hfield
  · simp at h
  obtain ⟨hfree, rfl⟩ := of_addMethod_eq_ok h
  have hfirst : Writes s type d (d.withChange type fun t =>
      { t with fields := t.fields ++ [raw.field], constructors := t.constructors ++ [raw.constructor] }) :=
    .of_change fun _ => ⟨rfl, rfl⟩
  refine ⟨hfirst.trans (.of_change fun _ => ⟨rfl, rfl⟩), fun ⟨t, ht, hbare⟩ => ?_⟩
  refine ⟨_, getElem?_withChange (getElem?_withChange ht), ?_, ?_, ?_, ?_⟩
  · simp [WrapperType.withMethods, hbare.fields]
  · simp [WrapperType.withMethods, hbare.constructors]
  · simp [WrapperType.withMethods, hbare.methods]
  · have hdeclares := declares_eq_false hfree (getElem?_withChange ht)
    have hname := WrapperType.notMem_memberNames hdeclares
    simp only [WrapperType.memberNames, hbare.fields, hbare.methods] at hname
    simp only [WrapperType.memberNames, WrapperType.withMethods, hbare.fields, hbare.methods]
    simpa [eq_comm] using hname

/-! ## Accessors -/

/-- The search for a suffix leaves all but the trace as it is. -/
lemma of_freeSuffix_eq_ok {stems : List String} {left : Nat} {suffix found : String}
    (h : outcome (freeSuffix type stems left suffix) d = (.ok found, d')) : ∃ trace, d' = { d with trace } := by
  induction left generalizing suffix d with
  | zero =>
    obtain ⟨e, u, -, hthrow⟩ := outcome_bind_eq_ok h
    simp at hthrow
  | succ left ih =>
    unfold freeSuffix at h
    rw [outcome_bind_of_ok (outcome_get d)] at h
    dsimp only at h
    split at h
    · rw [outcome_bind_of_ok (outcome_note d _)] at h
      obtain ⟨next, u, hnext, hrest⟩ := outcome_bind_eq_ok h
      obtain rfl : _ = u := congrArg Prod.snd hnext
      obtain ⟨trace, hd'⟩ := ih hrest
      exact ⟨trace, hd'⟩
    · exact ⟨d.trace, (congrArg Prod.snd h).symm⟩

/-- The accessors for a property are written behind the members that are there. -/
lemma of_writeProperty {raw : RawKind} {key : String} {required : Bool} {default? : Option Json} {x : Draft}
    (h : outcome (writeProperty s type raw key required default? x) d = (.ok ⟨⟩, d')) :
    Writes s type d d' ∧ ∃ suffix, x.type.getterStem = x.raw.accessorStem → ∀ methods, d.Holds type raw methods →
      d'.Holds type raw (methods ++ propertyAccessors raw key required default? x.type suffix) := by
  unfold writeProperty at h
  obtain ⟨attempts, d₁, hattempts, h₁⟩ := outcome_bind_eq_ok h
  obtain rfl : d = d₁ := congrArg Prod.snd hattempts
  obtain ⟨suffix, d₂, hsuffix, h₂⟩ := outcome_bind_eq_ok h₁
  obtain ⟨trace, rfl⟩ := of_freeSuffix_eq_ok hsuffix
  obtain ⟨⟨⟩, d₃, hgetter, h₃⟩ := outcome_bind_eq_ok h₂
  obtain ⟨hwrites, hholds⟩ := of_addMethod (s := s) hgetter
  have htrace : Writes s type d { d with trace } := .of_trace trace
  have hbefore := htrace.trans hwrites
  simp only [propertyAccessors_eq]
  split at h₃
  · next hchecked =>
    obtain ⟨hwrites', hholds'⟩ := of_addMethod (s := s) h₃
    refine ⟨hbefore.trans hwrites', suffix, fun hstem methods hmethods => ?_⟩
    rw [if_pos hchecked]
    have hboth := hholds' _ _ (hholds _ _ (hmethods.of_trace trace))
    rwa [List.append_assoc, hstem] at hboth
  · next hchecked =>
    obtain rfl : d₃ = d' := congrArg Prod.snd h₃
    refine ⟨hbefore, suffix, fun hstem methods hmethods => ?_⟩
    rw [if_neg hchecked]
    have hgetter := hholds _ _ (hmethods.of_trace trace)
    rwa [hstem] at hgetter

/-- The getter for an item is written behind the members that are there. -/
lemma of_writeItem {raw : RawKind} {default? : Option Json} {x : Draft}
    (h : outcome (writeItem s type raw default? x) d = (.ok ⟨⟩, d')) :
    Writes s type d d' ∧ ∃ suffix, x.type.getterStem = x.raw.accessorStem → ∀ methods, d.Holds type raw methods →
      d'.Holds type raw (methods ++ [itemAccessor raw default? x.type suffix]) := by
  unfold writeItem at h
  obtain ⟨e, d₁, hget, h₁⟩ := outcome_bind_eq_ok h
  obtain rfl : d = d₁ := congrArg Prod.snd hget
  obtain ⟨attempts, d₂, hattempts, h₂⟩ := outcome_bind_eq_ok h₁
  obtain rfl : d = d₂ := congrArg Prod.snd hattempts
  obtain ⟨suffix, d₃, hsuffix, h₃⟩ := outcome_bind_eq_ok h₂
  obtain ⟨trace, rfl⟩ := of_freeSuffix_eq_ok hsuffix
  obtain ⟨hwrites, hholds⟩ := of_addMethod (s := s) h₃
  refine ⟨(Writes.of_trace trace).trans hwrites, suffix, fun hstem methods hmethods => ?_⟩
  have hgetter := hholds _ _ (hmethods.of_trace trace)
  rw [itemAccessor_eq]
  rwa [hstem] at hgetter

/-- Where an entry is passed over, nothing is written. -/
lemma of_skip {entry : MalformedEntry} (h : outcome (skip s entry) d = (.ok ⟨⟩, d')) :
    ∃ trace, d' = { d with trace } := by
  unfold skip at h
  split at h
  · simp at h
  · exact ⟨_, (congrArg Prod.snd h).symm⟩

/-- The size is written behind the members that are there. -/
lemma of_fillSize {x : Draft} (h : outcome (fillSize type x) d = (.ok ⟨⟩, d')) :
    Writes s type d d' ∧ ∀ methods, x.raw = x.node.raw → d.Holds type x.raw methods →
      d'.Holds type x.raw (methods ++ sizeAccessors x.node) := by
  unfold fillSize at h
  unfold sizeAccessors
  split at h
  · next harray =>
    obtain ⟨hwrites, hholds⟩ := of_addMethod (s := s) h
    refine ⟨hwrites, fun methods hraw hmethods => ?_⟩
    rw [if_pos harray, ← hraw]
    exact hholds _ _ hmethods
  · next harray =>
    obtain rfl : d = d' := congrArg Prod.snd h
    refine ⟨.refl d, fun methods _ hmethods => ?_⟩
    rwa [if_neg harray, List.append_nil]

end Drafting

end SchemaAccessors
