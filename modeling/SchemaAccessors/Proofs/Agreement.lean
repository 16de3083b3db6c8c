import SchemaAccessors.Proofs.Validity

/-!
# Passes in two languages

Languages reserve different names. From the first name on that is taken in one language only, two passes over the same
documents give different names, and look at different names where they search for a free one. Here they are run side
by side, in states that are alike: with the same drafts, and with types for the same drafts that have the same
accessors. A search for a name comes to a name and nothing else, and everything else is done alike. So names decide
neither what is drafted nor what is accessed.
-/

namespace SchemaAccessors

/-! ## Accessors -/

/-- The getter of what an expression looks up, for values of a type. -/
def TypeRef.getter (r : TypeRef) (parameters : List Parameter) (lookup : Expr) (suffix : String) : Method :=
  { name := r.getterStem ++ suffix, returns := r, parameters, body? := some (r.wrap lookup) }

/-- The method that tells whether a key is there. -/
def RawKind.checker (raw : RawKind) (key suffix : String) : Method :=
  { name := "has" ++ suffix, returns := { raw := .boolean }, body? := some (.presence raw.field key) }

/-- What a type gives access to, with nothing said of names. `raw` is what the type wraps, and `r` the type of what
is accessed. -/
inductive Accessor
  | value (raw : RawKind)
  | property (raw : RawKind) (key : String) (required : Bool) (default? : Option Json) (r : TypeRef)
  | item (raw : RawKind) (default? : Option Json) (r : TypeRef)
  | size (raw : RawKind)

/-- The methods for what is accessed, under a suffix that a getter shares with its checker. The raw value and the
size are accessed by methods of one name each. -/
def Accessor.methods (suffix : String) : Accessor → List Method
  | value raw => [raw.getter]
  | property raw key required default? r =>
    r.getter [] (.property raw.field key r.raw default?) suffix ::
      if !required && default?.isNone then [raw.checker key suffix] else []
  | item raw default? r => [r.getter [indexParameter] (.item raw.field indexParameter r.raw default?) suffix]
  | size raw => [sizeAccessor raw]

/-- Methods for the same accessors in the same order, each under a suffix on either side. -/
inductive SameAccessors : List Method → List Method → Prop
  | none : SameAccessors [] []
  | more {before before' : List Method} (same : SameAccessors before before') (a : Accessor)
      (suffix suffix' : String) : SameAccessors (before ++ a.methods suffix) (before' ++ a.methods suffix')

/-- Types that differ in names and documentation at most. -/
structure WrapperType.Alike (t t' : WrapperType) : Prop where
  container : t'.container = t.container
  fields : t'.fields = t.fields
  constructors : t'.constructors = t.constructors
  accessors : SameAccessors t.methods t'.methods

/-- Settings of passes over the same documents. -/
structure Setting.Alike (s s' : Setting) : Prop where
  loader : s'.loader = s.loader
  namespaceIndex : s'.namespaceIndex = s.namespaceIndex

/-- Lists with related members stay so if members at one place are changed alike. -/
lemma forall₂_modify {α β : Type} {R : α → β → Prop} {f : α → α} {g : β → β} {xs : List α} {ys : List β}
    (h : List.Forall₂ R xs ys) (hfg : ∀ x y, R x y → R (f x) (g y)) (i : Nat) :
    List.Forall₂ R (xs.modify i f) (ys.modify i g) := by
  induction h generalizing i with
  | nil => simp
  | @cons x y xs ys hxy hrest ih =>
    cases i with
    | zero => exact .cons (hfg x y hxy) hrest
    | succ i => exact .cons hxy (ih i)

namespace Drafting

/-- States with the same documents and the same drafts, and types for the same drafts, each in the container for the
same draft, that differ in names and documentation at most. The same warnings were given. -/
structure Alike (d d' : Drafting) : Prop where
  store : d'.store = d.store
  drafts : d'.drafts = d.drafts
  registry : d'.registry = d.registry
  types : List.Forall₂ WrapperType.Alike d.model.types d'.model.types
  warnings : d'.trace.warnings = d.trace.warnings

section States

variable {d d' : Drafting}

lemma Alike.withChange {f f' : WrapperType → WrapperType} (h : d.Alike d')
    (hf : ∀ t t', t.Alike t' → (f t).Alike (f' t')) (type : TypeId) :
    (d.withChange type f).Alike (d'.withChange type f') where
  store := h.store
  drafts := h.drafts
  registry := h.registry
  types := forall₂_modify h.types hf type
  warnings := h.warnings

lemma Alike.withTraces {trace trace' : Trace} (h : d.Alike d') (hwarnings : trace'.warnings = trace.warnings) :
    Alike { d with trace } { d' with trace := trace' } :=
  ⟨h.store, h.drafts, h.registry, h.types, hwarnings⟩

/-- A type has a further accessor, and nothing else is changed but the trace, in which nothing is warned of. -/
def Gains (type : TypeId) (a : Accessor) (d e : Drafting) : Prop :=
  ∃ suffix trace, Trace.warnings trace = d.trace.warnings ∧
    e = withChange { d with trace } type (·.withMethods (a.methods suffix))

lemma Alike.of_gains {type : TypeId} {a : Accessor} {e e' : Drafting} (h : d.Alike d') (hd : d.Gains type a e)
    (hd' : d'.Gains type a e') : e.Alike e' := by
  obtain ⟨suffix, trace, hquiet, rfl⟩ := hd
  obtain ⟨suffix', trace', hquiet', rfl⟩ := hd'
  have htraces : trace'.warnings = trace.warnings := by rw [hquiet', hquiet, h.warnings]
  refine (h.withTraces htraces).withChange (fun t t' ht => ?_) type
  exact ⟨ht.container, ht.fields, ht.constructors, ht.accessors.more a suffix suffix'⟩

end States

/-! ## Steps side by side -/

/-- Where two programs succeed in states that are alike, their results are related, and the states that they leave
are alike. -/
def Agree {α β : Type} (R : α → β → Prop) (x : DraftM α) (y : DraftM β) : Prop :=
  ∀ ⦃d d' e e' : Drafting⦄ ⦃a : α⦄ ⦃b : β⦄, d.Alike d' → outcome x d = (.ok a, e) → outcome y d' = (.ok b, e') →
    R a b ∧ e.Alike e'

/-- Steps in which nothing is warned of, whether they succeed or not. -/
def Quiet {α : Type} (x : DraftM α) : Prop :=
  ∀ d, (outcome x d).2.trace.warnings = d.trace.warnings

section Quiet

variable {α β : Type}

lemma quiet_pure (a : α) : Quiet (pure a) := fun _ => rfl

lemma quiet_throw (e : Failure) : Quiet (throw e : DraftM α) := fun _ => rfl

lemma quiet_get : Quiet get := fun _ => rfl

lemma quiet_lift (r : Except Failure α) : Quiet (lift r) := fun _ => rfl

lemma quiet_note {e : Event} (h : e.isWarning = false) : Quiet (note e) := by
  intro d
  simp [Trace.warnings_push, h]

/-- That documents are loaded is no warning. -/
lemma quiet_onStore (steps : StoreM α) : Quiet (onStore steps) := by
  intro d
  have hdetails (loads : List Load) :
      (loads.map fun load => Event.loading load.uri).filter Event.isWarning = [] := by
    simp [List.filter_eq_nil_iff, Event.isWarning]
  show Trace.warnings (d.trace ++ (List.map _ _).toArray) = d.trace.warnings
  simp only [Trace.warnings, Array.toList_append, List.filter_append, hdetails, List.append_nil]

lemma Quiet.bind {x : DraftM α} {f : α → DraftM β} (hx : Quiet x) (hf : ∀ a, Quiet (f a)) : Quiet (x >>= f) :=
  fun d => outcome_bind_leads (R := fun a b : Drafting => b.trace.warnings = a.trace.warnings)
    (fun hab hbc => hbc.trans hab) (hx d) fun a t _ => hf a t

lemma Quiet.warnings {x : DraftM α} (h : Quiet x) {d e : Drafting} {r : Except Failure α}
    (hx : outcome x d = (r, e)) : e.trace.warnings = d.trace.warnings :=
  outcome_leads (R := fun a b : Drafting => b.trace.warnings = a.trace.warnings) (h d) hx

lemma quiet_declareType (n : SchemaNode) (doc : String) (c : Container) (attempts left : Nat) (name : String) :
    Quiet (declareType n doc c attempts left name) := by
  induction left generalizing name with
  | zero => exact quiet_throw _
  | succ left ih =>
    unfold declareType
    refine quiet_get.bind fun d => (quiet_lift _).bind fun found => ?_
    split
    · exact quiet_throw _
    · split
      · exact fun _ => rfl
      · exact (quiet_note rfl).bind fun _ => (quiet_lift _).bind ih

lemma quiet_freeSuffix (type : TypeId) (stems : List String) (left : Nat) (suffix : String) :
    Quiet (freeSuffix type stems left suffix) := by
  induction left generalizing suffix with
  | zero => exact quiet_get.bind fun _ => quiet_throw _
  | succ left ih =>
    unfold freeSuffix
    refine quiet_get.bind fun d => ?_
    dsimp only
    split
    · exact (quiet_note rfl).bind fun _ => (quiet_lift _).bind ih
    · exact quiet_pure _

end Quiet

section Agree

variable {α β γ δ : Type} {R : α → β → Prop} {S : γ → δ → Prop}

lemma agree_pure {a : α} {b : β} (h : R a b) : Agree R (pure a) (pure b) := by
  intro d d' e e' a' b' halike hx hy
  obtain ⟨rfl, rfl⟩ : a = a' ∧ d = e := by simpa using hx
  obtain ⟨rfl, rfl⟩ : b = b' ∧ d' = e' := by simpa using hy
  exact ⟨h, halike⟩

lemma agree_throw_left (cause : Failure) (y : DraftM β) : Agree R (throw cause) y := by
  intro d d' e e' a b _ hx _
  simp at hx

lemma agree_throw_right (x : DraftM α) (cause : Failure) : Agree R x (throw cause) := by
  intro d d' e e' a b _ _ hy
  simp at hy

lemma Agree.bind {x : DraftM α} {y : DraftM β} {f : α → DraftM γ} {g : β → DraftM δ} (h : Agree R x y)
    (hfg : ∀ a b, R a b → Agree S (f a) (g b)) : Agree S (x >>= f) (y >>= g) := by
  intro d d' e e' c c' halike hx hy
  obtain ⟨a, t, ha, hc⟩ := outcome_bind_eq_ok hx
  obtain ⟨b, t', hb, hc'⟩ := outcome_bind_eq_ok hy
  obtain ⟨hab, ht⟩ := h halike ha hb
  exact hfg a b hab ht hc hc'

/-- Programs agree that first do the same and then go on alike from the same result. -/
lemma Agree.andThen {x y : DraftM α} {f : α → DraftM γ} {g : α → DraftM δ} (h : Agree (· = ·) x y)
    (hfg : ∀ a, Agree S (f a) (g a)) : Agree S (x >>= f) (y >>= g) :=
  h.bind fun a _ hab => hab ▸ hfg a

lemma agree_get : Agree Alike get get := by
  intro d d' e e' a b halike hx hy
  obtain ⟨rfl, rfl⟩ : d = a ∧ d = e := by simpa using hx
  obtain ⟨rfl, rfl⟩ : d' = b ∧ d' = e' := by simpa using hy
  exact ⟨halike, halike⟩

lemma agree_modify {f g : Drafting → Drafting} (h : ∀ d d', d.Alike d' → (f d).Alike (g d')) :
    Agree (· = ·) (modify f : DraftM PUnit) (modify g) := by
  intro d d' e e' a b halike hx hy
  obtain rfl := congrArg Prod.snd hx
  obtain rfl := congrArg Prod.snd hy
  exact ⟨rfl, h d d' halike⟩

lemma agree_note (e : Event) : Agree (· = ·) (note e) (note e) :=
  agree_modify fun d d' h => h.withTraces (by rw [Trace.warnings_push, Trace.warnings_push, h.warnings])

/-- What is no warning may differ. -/
lemma agree_note_of_detail {e e' : Event} (he : e.isWarning = false) (he' : e'.isWarning = false) :
    Agree (· = ·) (note e) (note e') :=
  agree_modify fun d d' h => h.withTraces (by simp [Trace.warnings_push, he, he', h.warnings])

/-- Results that are given without a look at the state may differ. -/
lemma agree_lift (r : Except Failure α) (r' : Except Failure β) :
    Agree (fun _ _ => True) (lift r) (lift r') := by
  intro d d' e e' a b halike hx hy
  obtain rfl := congrArg Prod.snd hx
  obtain rfl := congrArg Prod.snd hy
  exact ⟨trivial, halike⟩

lemma agree_lookup (uri : String) : Agree (· = ·) (lookup uri) (lookup uri) :=
  agree_get.bind fun _ _ h => agree_pure (by rw [h.registry])

lemma agree_draft (id : DraftId) : Agree (· = ·) (draft id) (draft id) := by
  refine agree_get.bind fun d d' h => ?_
  rw [h.drafts]
  split
  · exact agree_pure rfl
  · exact agree_throw_left _ _

lemma agree_update (id : DraftId) (f : Draft → Draft) : Agree (· = ·) (update id f) (update id f) :=
  agree_modify fun _ _ h =>
    ⟨h.store, congrArg (List.modify · id f) h.drafts, h.registry, h.types, h.warnings⟩

lemma agree_register (uri : String) (id? : Option DraftId) :
    Agree (· = ·) (register uri id?) (register uri id?) := by
  refine agree_get.bind fun d d' h => ?_
  rw [h.registry]
  split
  · exact agree_throw_left _ _
  · exact agree_modify fun d d' h =>
      ⟨h.store, h.drafts, congrArg (· ++ [(uri, id?)]) h.registry, h.types, h.warnings⟩

lemma agree_create (n : SchemaNode) : Agree (· = ·) (create n) (create n) := by
  refine agree_get.bind fun d d' h => ?_
  rw [h.drafts]
  refine (agree_register n.uri _).andThen fun _ => ?_
  refine Agree.andThen (agree_modify fun d d' h => ?_) fun _ => agree_pure rfl
  exact ⟨h.store, congrArg (· ++ [{ node := n, raw := .ofKinds n.kinds }]) h.drafts, h.registry, h.types, h.warnings⟩

lemma agree_onStore (steps : StoreM α) : Agree (· = ·) (onStore steps) (onStore steps) := by
  intro d d' e e' a b halike hx hy
  have hquiet := (quiet_onStore steps).warnings hx
  have hquiet' := (quiet_onStore steps).warnings hy
  obtain ⟨store, trace, hsteps, rfl⟩ := of_onStore_eq_ok hx
  obtain ⟨store', trace', hsteps', rfl⟩ := of_onStore_eq_ok hy
  rw [halike.store, hsteps] at hsteps'
  obtain ⟨rfl, rfl⟩ : a = b ∧ store = store' := by simpa using hsteps'
  refine ⟨rfl, rfl, halike.drafts, halike.registry, halike.types, ?_⟩
  exact hquiet'.trans (halike.warnings.trans hquiet.symm)

lemma agree_forM {ι : Type} {f g : ι → DraftM PUnit} (hfg : ∀ i, Agree (· = ·) (f i) (g i)) (xs : List ι) :
    Agree (· = ·) (xs.forM f) (xs.forM g) := by
  induction xs with
  | nil => exact agree_pure rfl
  | cons i xs ih => exact (hfg i).andThen fun _ => ih

lemma agree_mapM {ι : Type} {f g : ι → DraftM α} (hfg : ∀ i, Agree (· = ·) (f i) (g i)) (xs : List ι) :
    Agree (· = ·) (xs.mapM f) (xs.mapM g) := by
  induction xs with
  | nil => exact agree_pure rfl
  | cons i xs ih =>
    rw [List.mapM_cons, List.mapM_cons]
    exact (hfg i).andThen fun a => ih.andThen fun as => agree_pure rfl

/-- Each program gives a type the same accessor. -/
lemma agree_of_gains {type : TypeId} {a : Accessor} {x y : DraftM PUnit}
    (hx : ∀ d e, outcome x d = (.ok ⟨⟩, e) → d.Gains type a e)
    (hy : ∀ d e, outcome y d = (.ok ⟨⟩, e) → d.Gains type a e) : Agree (· = ·) x y := by
  intro d d' e e' _ _ halike hd hd'
  exact ⟨rfl, halike.of_gains (hx d e hd) (hy d' e' hd')⟩

end Agree

/-! ## Declaring -/

section Declaring

variable {s s' : Setting} {n : SchemaNode}

/-- A type is declared behind the others, whatever its name. -/
lemma agree_declareType (c : Container) (doc doc' : String) (attempts attempts' left left' : Nat) {name : String}
    (hname : Naming.isTypeName name = true) :
    Agree (· = ·) (declareType n doc c attempts left name) (declareType n doc' c attempts' left' name) := by
  intro d d' e e' a b halike hx hy
  have hquiet := (quiet_declareType n doc c attempts left name).warnings hx
  have hquiet' := (quiet_declareType n doc' c attempts' left' name).warnings hy
  have hnamed := named_declareType n doc c attempts left hname d
  have hnamed' := named_declareType n doc' c attempts' left' hname d'
  rw [hx] at hnamed
  rw [hy] at hnamed'
  obtain ⟨cause, trace, hfailed⟩ | ⟨found, trace, -, -, -, hdone⟩ := hnamed
  · simp at hfailed
  obtain ⟨cause, trace', hfailed⟩ | ⟨found', trace', -, -, -, hdone'⟩ := hnamed'
  · simp at hfailed
  obtain ⟨rfl, rfl⟩ : a = d.model.types.length ∧ e = _ := by simpa using hdone
  obtain ⟨rfl, rfl⟩ : b = d'.model.types.length ∧ e' = _ := by simpa using hdone'
  refine ⟨halike.types.length_eq, halike.store, halike.drafts, halike.registry, ?_, ?_⟩
  · exact List.rel_append halike.types (.cons ⟨rfl, rfl, rfl, .none⟩ .nil)
  · exact hquiet'.trans (halike.warnings.trans hquiet.symm)

lemma agree_needsType (hs : s.Alike s') (raw : RawKind) :
    Agree (· = ·) (needsType s n raw) (needsType s' n raw) := by
  cases raw with
  | object =>
    simp only [needsType, hs.loader]
    exact (agree_onStore _).andThen fun properties => agree_pure rfl
  | _ => exact agree_pure rfl

lemma agree_declareIn (hs : s.Alike s') {container container' : DraftM Container}
    (hc : Agree (· = ·) container container') :
    Agree (· = ·) (declareIn s n container) (declareIn s' n container') := by
  unfold declareIn
  refine (agree_lookup n.uri).andThen fun found => ?_
  cases found with
  | some id => exact agree_pure rfl
  | none =>
    refine (agree_create n).andThen fun id => ?_
    refine (agree_needsType hs _).andThen fun needed => ?_
    cases needed with
    | false => exact (agree_note_of_detail rfl rfl).andThen fun _ => agree_pure rfl
    | true =>
      refine hc.andThen fun c => (agree_lift _ _).bind fun attempts attempts' _ => ?_
      refine (agree_declareType c _ _ _ _ _ _ (Naming.isTypeName_typeName n.uri)).andThen fun type => ?_
      refine (agree_update id _).andThen fun _ => agree_get.bind fun d d' _ => ?_
      exact (agree_note_of_detail rfl rfl).andThen fun _ => agree_pure rfl

/-- Declarations come to the same drafts. -/
theorem agree_declare (hs : s.Alike s') (n : SchemaNode) : Agree (· = ·) (declare s n) (declare s' n) := by
  induction n with
  | root site => exact agree_declareIn hs (agree_pure (by rw [hs.namespaceIndex]))
  | inside parent site ih =>
    refine agree_declareIn hs (ih.andThen fun id => (agree_draft id).andThen fun outer => ?_)
    rw [hs.namespaceIndex]
    exact agree_pure rfl

end Declaring

/-! ## Filling -/

section Members

variable {s s' : Setting} {type : TypeId} {d e : Drafting}

lemma gains_of_addMethod (a : Accessor) (suffix : String) {method : Method} (ha : a.methods suffix = [method])
    (h : outcome (addMethod type method) d = (.ok ⟨⟩, e)) : d.Gains type a e := by
  obtain ⟨-, rfl⟩ := of_addMethod_eq_ok h
  exact ⟨suffix, d.trace, rfl, by rw [ha]⟩

/-- The search for a suffix comes to a suffix and nothing else. -/
lemma exists_of_freeSuffix {stems : List String} {left : Nat} {suffix found : String}
    (h : outcome (freeSuffix type stems left suffix) d = (.ok found, e)) :
    ∃ trace, Trace.warnings trace = d.trace.warnings ∧ e = { d with trace } := by
  have hquiet := (quiet_freeSuffix type stems left suffix).warnings h
  obtain ⟨trace, rfl⟩ := of_freeSuffix_eq_ok h
  exact ⟨trace, hquiet, rfl⟩

lemma gains_of_writeProperty {raw : RawKind} {key : String} {required : Bool} {default? : Option Json} {x : Draft}
    (h : outcome (writeProperty s type raw key required default? x) d = (.ok ⟨⟩, e)) :
    d.Gains type (.property raw key required default? x.type) e := by
  unfold writeProperty at h
  obtain ⟨attempts, d₁, hattempts, h⟩ := outcome_bind_eq_ok h
  obtain rfl : d = d₁ := congrArg Prod.snd hattempts
  obtain ⟨suffix, d₂, hsuffix, h⟩ := outcome_bind_eq_ok h
  obtain ⟨trace, hquiet, rfl⟩ := exists_of_freeSuffix hsuffix
  obtain ⟨⟨⟩, d₃, hgetter, h⟩ := outcome_bind_eq_ok h
  obtain ⟨-, rfl⟩ := of_addMethod_eq_ok hgetter
  refine ⟨suffix, trace, hquiet, ?_⟩
  rw [Accessor.methods]
  split at h
  · next hchecked =>
    obtain ⟨-, rfl⟩ := of_addMethod_eq_ok h
    rw [if_pos hchecked, withChange_withChange]
    congr 1
    funext t
    simp [WrapperType.withMethods, TypeRef.getter, RawKind.checker]
    rfl
  · next hchecked =>
    obtain rfl := congrArg Prod.snd h
    rw [if_neg hchecked]
    rfl

lemma gains_of_writeItem {raw : RawKind} {default? : Option Json} {x : Draft}
    (h : outcome (writeItem s type raw default? x) d = (.ok ⟨⟩, e)) :
    d.Gains type (.item raw default? x.type) e := by
  unfold writeItem at h
  obtain ⟨d₀, d₁, hget, h⟩ := outcome_bind_eq_ok h
  obtain rfl : d = d₁ := congrArg Prod.snd hget
  obtain ⟨attempts, d₂, hattempts, h⟩ := outcome_bind_eq_ok h
  obtain rfl : d = d₂ := congrArg Prod.snd hattempts
  obtain ⟨suffix, d₃, hsuffix, h⟩ := outcome_bind_eq_ok h
  obtain ⟨trace, hquiet, rfl⟩ := exists_of_freeSuffix hsuffix
  obtain ⟨-, rfl⟩ := of_addMethod_eq_ok h
  exact ⟨suffix, trace, hquiet, rfl⟩

lemma agree_writeScaffold (raw : RawKind) : Agree (· = ·) (writeScaffold type raw) (writeScaffold type raw) := by
  intro d d' e e' _ _ halike hx hy
  rw [outcome_writeScaffold] at hx hy
  split_ifs at hx with hfield
  · simp at hx
  split_ifs at hy with hfield'
  · simp at hy
  refine ⟨rfl, Alike.of_gains ?_ (gains_of_addMethod (.value raw) "" rfl hx)
    (gains_of_addMethod (.value raw) "" rfl hy)⟩
  refine halike.withChange (fun t t' ht => ?_) type
  exact ⟨ht.container, congrArg (· ++ [raw.field]) ht.fields, congrArg (· ++ [raw.constructor]) ht.constructors,
    ht.accessors⟩

lemma agree_skip (entry : MalformedEntry) : Agree (· = ·) (skip s entry) (skip s' entry) := by
  unfold skip
  split
  · exact agree_throw_left _ _
  · split
    · exact agree_throw_right _ _
    · exact agree_note _

lemma agree_fillSize (type : TypeId) (x : Draft) : Agree (· = ·) (fillSize type x) (fillSize type x) := by
  unfold fillSize
  split
  · exact agree_of_gains (fun d e => gains_of_addMethod (.size x.raw) "" rfl)
      fun d e => gains_of_addMethod (.size x.raw) "" rfl
  · exact agree_pure rfl

end Members

section Filling

variable {s s' : Setting} {fuel : Nat}

/-- Filling agrees, with the same fuel. -/
def FillAgrees (s s' : Setting) (fuel : Nat) : Prop :=
  ∀ id, Agree (· = ·) (fill s fuel id) (fill s' fuel id)

lemma agree_drafted (hs : s.Alike s') (hfill : FillAgrees s s' fuel) (n : SchemaNode) :
    Agree (· = ·) (drafted s fuel n) (drafted s' fuel n) :=
  (agree_declare hs n).andThen fun id => (hfill id).andThen fun _ => agree_draft id

lemma agree_fillProperty (hs : s.Alike s') (hfill : FillAgrees s s' fuel) (type : TypeId) (x : Draft)
    (p : String × Entry) : Agree (· = ·) (fillProperty s fuel type x p) (fillProperty s' fuel type x p) := by
  obtain ⟨key, entry⟩ := p
  cases entry with
  | plain value => exact agree_skip _
  | node n =>
    refine (agree_drafted hs hfill n).andThen fun y => ?_
    exact agree_of_gains (fun d e => gains_of_writeProperty) fun d e => gains_of_writeProperty

lemma agree_fillItem (hs : s.Alike s') (hfill : FillAgrees s s' fuel) (type : TypeId) (x : Draft)
    (p : Entry × Nat) : Agree (· = ·) (fillItem s fuel type x p) (fillItem s' fuel type x p) := by
  obtain ⟨entry, position⟩ := p
  cases entry with
  | plain value => exact agree_skip _
  | node n =>
    refine (agree_drafted hs hfill n).andThen fun y => ?_
    exact agree_of_gains (fun d e => gains_of_writeItem) fun d e => gains_of_writeItem

lemma agree_fillType (hs : s.Alike s') (hfill : FillAgrees s s' fuel) (type : TypeId) (x : Draft) :
    Agree (· = ·) (fillType s fuel type x) (fillType s' fuel type x) := by
  unfold fillType
  rw [hs.loader]
  refine (agree_writeScaffold x.raw).andThen fun _ => ?_
  refine (agree_onStore _).andThen fun properties => ?_
  refine (agree_forM (agree_fillProperty hs hfill type x) properties).andThen fun _ => ?_
  refine (agree_onStore _).andThen fun items => ?_
  exact (agree_forM (agree_fillItem hs hfill type x) items.zipIdx).andThen fun _ => agree_fillSize type x

lemma agree_fillDraft (hs : s.Alike s') (hfill : FillAgrees s s' fuel) (x : Draft) :
    Agree (· = ·) (fillDraft s fuel x) (fillDraft s' fuel x) := by
  unfold fillDraft
  cases x.wrapper? with
  | none => exact agree_pure rfl
  | some type => exact agree_fillType hs hfill type x

/-- Filling asks for the same drafts in the same order, and gives types the same accessors. -/
theorem agree_fill (hs : s.Alike s') (fuel : Nat) : FillAgrees s s' fuel := by
  induction fuel with
  | zero => exact fun id => agree_throw_left _ _
  | succ fuel ih =>
    intro id
    rw [fill_succ, fill_succ]
    refine (agree_draft id).andThen fun x => ?_
    split
    · exact agree_pure rfl
    · exact (agree_update id _).andThen fun _ => agree_fillDraft hs ih x

/-! ## Passes -/

lemma agree_bound (hs : s.Alike s') : Agree (· = ·) (bound s) (bound s') :=
  agree_get.bind fun _ _ h => agree_pure (by rw [h.store, hs.loader])

lemma agree_pending : Agree (· = ·) pending pending := by
  have hregistered (r : String × Option DraftId) : Agree (· = ·) (registered r) (registered r) := by
    unfold registered
    split
    · exact agree_pure rfl
    · exact agree_throw_left _ _
  rw [pending_eq]
  refine agree_get.bind fun d d' halike => ?_
  rw [halike.registry]
  refine (agree_mapM hregistered _).andThen fun ids => agree_get.bind fun e e' halike' => ?_
  rw [halike'.drafts]
  exact agree_pure rfl

lemma agree_complete (hs : s.Alike s') (n : SchemaNode) : Agree (· = ·) (complete s n) (complete s' n) := by
  refine (agree_declare hs n).andThen fun id => (agree_bound hs).andThen fun fuel => ?_
  exact (agree_fill hs fuel id).andThen fun _ => agree_pure rfl

lemma agree_finishOne (hs : s.Alike s') (id : DraftId) : Agree (· = ·) (finishOne s id) (finishOne s' id) := by
  refine (agree_draft id).andThen fun x => (agree_note _).andThen fun _ => ?_
  exact (agree_bound hs).andThen fun fuel => agree_fill hs fuel id

lemma agree_finishIn (hs : s.Alike s') (rounds : Nat) : Agree (· = ·) (finishIn s rounds) (finishIn s' rounds) := by
  induction rounds with
  | zero => exact agree_throw_left _ _
  | succ rounds ih =>
    rw [finishIn_succ, finishIn_succ]
    refine agree_pending.andThen fun ids => ?_
    split
    · exact agree_pure rfl
    · exact (agree_forM (agree_finishOne hs) ids).andThen fun _ => ih

theorem agree_pass (hs : s.Alike s') (root : SchemaNode) : Agree (· = ·) (pass s root) (pass s' root) :=
  (agree_complete hs root).andThen fun _ => (agree_bound hs).andThen fun rounds => agree_finishIn hs rounds

end Filling

section Begun

variable {loader : Loader} {config config' : Config} {l l' : Language} {namespaceName namespaceName' : String}
  {store : Store} {trace trace' : Trace}

lemma alike_setting_beginPass : (beginPass loader config l namespaceName store).1.Alike
    (beginPass loader config' l' namespaceName' store).1 :=
  ⟨rfl, (namespaceIndex_beginPass ..).trans (namespaceIndex_beginPass ..).symm⟩

lemma alike_beginPass (hwarnings : trace'.warnings = trace.warnings) :
    Alike { (beginPass loader config l namespaceName store).2 with trace }
      { (beginPass loader config' l' namespaceName' store).2 with trace := trace' } where
  store := rfl
  drafts := rfl
  registry := rfl
  types := by
    show List.Forall₂ _ (beginPass loader config l namespaceName store).2.model.types
      (beginPass loader config' l' namespaceName' store).2.model.types
    rw [types_beginPass, types_beginPass]
    exact .nil
  warnings := hwarnings

end Begun

end Drafting

/-! ## Generations -/

namespace Generation

/-- Two passes over the same documents that succeed leave states that are alike, whatever their languages and their
configurations are. -/
theorem alike_of_build {g g' : Generation} {l l' : Language} {name name' : String} {root : SchemaNode}
    {d d' e e' : Drafting} (hloader : g'.loader = g.loader) (hstore : d'.store = d.store)
    (hwarnings : d'.trace.warnings = d.trace.warnings) (hok : outcome (g.build l name root) d = (.ok ⟨⟩, e))
    (hok' : outcome (g'.build l' name' root) d' = (.ok ⟨⟩, e')) : e.Alike e' := by
  obtain ⟨namespaceName, t, -, hpass, rfl⟩ := exists_pass_of_build hok
  obtain ⟨namespaceName', t', -, hpass', rfl⟩ := exists_pass_of_build hok'
  rw [hloader, hstore] at hpass'
  obtain ⟨-, hended⟩ :=
    Drafting.agree_pass Drafting.alike_setting_beginPass root (Drafting.alike_beginPass hwarnings) hpass hpass'
  refine hended.withTraces ?_
  rw [Trace.warnings_push, Trace.warnings_push, hended.warnings]
  rfl

/-! ### Names that one language reserves -/

namespace Reserved

def members : Members :=
  [("type", .str "object"), ("properties", .obj
    [("class", .obj [("type", .str "string")]), ("size", .int 5),
      ("object", .obj [("items", .obj [("$ref", .str "#")])])])]

def root : SchemaNode :=
  .root ⟨"s.json", [], "s.json", "s.json", members⟩

def begun : Drafting :=
  .start ⟨[⟨"s.json", survey (.root "s.json") (.obj members)⟩]⟩ (.empty [] [])

/-- A generation that shows the schemas in Python code only. -/
def generation (l : Language) : Generation :=
  ⟨⟨[], ⟨[]⟩, .top⟩, { includeSchemaJsonInDocs := .bool (l = .python) }, programName⟩

/-- What a pass for a language leaves. -/
def last (l : Language) : Drafting :=
  (outcome ((generation l).build l "s" root) begun).2

/-- The names of types and their methods. -/
def names (l : Language) : List (String × List String) :=
  (last l).model.types.map fun t => (t.name, t.methods.map (·.name))

end Reserved

/-- Both a type and a getter have other names in Java than in Python. -/
theorem alike_of_build_of_reserved :
    Reserved.names .python =
        [("S", ["getJsonObject", "getClass", "hasClass", "getObject", "hasObject"]),
          ("Object", ["getObject", "getS"])] ∧
      Reserved.names .java =
        [("S", ["getJsonObject", "getClass2", "hasClass2", "getObject", "hasObject"]),
          ("Object2", ["getObject", "getS"])] ∧
      (Reserved.last .python).Alike (Reserved.last .java) := by
  have hpython : outcome ((Reserved.generation .python).build .python "s" Reserved.root) Reserved.begun =
      (.ok ⟨⟩, Reserved.last .python) := eq_ok_of_toBool (by decide +kernel)
  have hjava : outcome ((Reserved.generation .java).build .java "s" Reserved.root) Reserved.begun =
      (.ok ⟨⟩, Reserved.last .java) := eq_ok_of_toBool (by decide +kernel)
  refine ⟨by decide +kernel, by decide +kernel, alike_of_build ?_ ?_ ?_ hpython hjava⟩
  all_goals rfl

end Generation

end SchemaAccessors
