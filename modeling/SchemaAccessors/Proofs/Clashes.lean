import SchemaAccessors.Proofs.FreeNames
import SchemaAccessors.Proofs.Refusals

/-!
# Names that clash

A model refuses a member of a name that a type has or the language keeps. Only some members are given a name that was
looked for: the field, the getter of the raw value and the size have names of their own, and a checker is added behind
a getter with which it shared one search. They are free because every type is filled once, from nothing: until its
draft is started a type has no member, and until the last step of filling none named `size` (`Orderly`).
-/

namespace SchemaAccessors

/-! ## Failures that are clashes -/

namespace Failure

/-- Whether a name was refused because something has it. -/
def isClash (e : Failure) : Bool :=
  match e.family with
  | .typeName | .memberName => true
  | _ => false

variable {e cause : Failure}

lemma ne_of_isClash (he : e.isClash = true) (hcause : cause.isClash = false) : cause ≠ e := by
  rintro rfl
  rw [he] at hcause
  exact Bool.noConfusion hcause

lemma ofDocuments_of_isClash (he : e.isClash = true) : e.ofDocuments = false := by
  unfold isClash at he
  unfold ofDocuments
  split at he
  · next h => rw [h]
  · next h => rw [h]
  · cases he

end Failure

namespace Naming

/-- The names of members that are not looked for. -/
def fixedNames : List String :=
  "size" :: RawKind.all.flatMap fun raw => [raw.field.name, raw.getter.name]

lemma append_ne_size {stem : String} (h : stem ∈ methodStems) (suffix : String) : stem ++ suffix ≠ "size" := by
  have hheads : ∀ stem ∈ methodStems, stem.toList.head?.any (· ≠ 's') = true := by decide
  obtain ⟨c, hc, hne⟩ := (Option.any_eq_true _ _).1 (hheads stem h)
  intro hsize
  have htexts := congrArg (fun name : String => name.toList.head?) hsize
  simp only [String.toList_append, List.head?_append, hc, Option.some_or] at htexts
  obtain rfl : c = 's' := Option.some.inj htexts
  simp at hne

end Naming

lemma TypeRef.getterStem_ne_has (r : TypeRef) : r.getterStem ≠ "has" := by
  unfold getterStem
  split <;> decide

/-! ## Members behind a change -/

namespace Model

variable {m : Model} {type t : TypeId} {f : WrapperType → WrapperType} {name : String}

lemma memberNames_update_of_ne (h : type ≠ t) : (m.update type f).memberNames t = m.memberNames t := by
  simp [memberNames, update, List.getElem?_modify_ne _ _ h]

/-- A change by which each type has at most some members more. -/
lemma mem_memberNames_update {names : List String} (hf : ∀ u, (f u).memberNames ⊆ u.memberNames ++ names)
    (h : name ∈ (m.update type f).memberNames t) : name ∈ m.memberNames t ∨ name ∈ names := by
  simp only [memberNames, update, List.getElem?_modify] at h ⊢
  cases ht : m.types[t]? with
  | none => simp [ht] at h
  | some u =>
    simp only [ht, Option.map_eq_map, Option.map_some, Option.elim_some] at h ⊢
    split at h
    · exact List.mem_append.1 (hf u h)
    · exact .inl h

lemma hasMember_eq_false (hreserved : name ∉ m.reservedMembers) (h : name ∉ m.memberNames t) :
    m.hasMember t name = false := by
  rw [← Bool.not_eq_true, hasMember_iff, List.mem_append]
  exact fun hmem => hmem.elim hreserved h

end Model

namespace Drafting

/-! ## The invariant -/

/-- Drafting is in order, with some types `opened`, which are being filled: what the fixed names of members are is not
reserved, a type whose draft is not started has no members, and none that is being filled has a size. -/
structure Orderly (opened : TypeId → Prop) (d : Drafting) : Prop where
  sound : d.Sound
  fixed : ∀ name ∈ Naming.fixedNames, name ∉ d.model.reservedMembers
  untouched : ∀ x ∈ d.drafts, x.started = false → ∀ t : TypeId, x.wrapper? = some t → d.model.memberNames t = []
  unsized : ∀ t, opened t → "size" ∉ d.model.memberNames t
  begun : ∀ t, opened t → ∃ x ∈ d.drafts, x.started = true ∧ x.wrapper? = some t

/-- A failure that is no clash, and that leaves drafting in order. -/
def Fine (e : Failure) (d : Drafting) : Prop :=
  e.isClash = false ∧ d.Orderly fun _ => False

variable {s : Setting} {opened opened' : TypeId → Prop} {d : Drafting} {type : TypeId}

lemma Sound.withChange (h : d.Sound) (type : TypeId) (f : WrapperType → WrapperType) : (d.withChange type f).Sound := by
  refine ⟨h.registry, h.distinct, h.raw, fun x hx t ht => ?_, h.owner⟩
  simpa [Drafting.withChange, Model.update] using h.typed x hx t ht

namespace Orderly

lemma mono (h : d.Orderly opened) (hsub : ∀ t, opened' t → opened t) : d.Orderly opened' :=
  ⟨h.sound, h.fixed, h.untouched, fun t ht => h.unsized t (hsub t ht), fun t ht => h.begun t (hsub t ht)⟩

lemma fine {e : Failure} (h : d.Orderly opened) (he : e.isClash = false) : Fine e d :=
  ⟨he, h.mono fun _ => False.elim⟩

lemma read (h : d.Orderly opened) (store : Store) (trace : Trace) : Orderly opened { d with store, trace } :=
  ⟨h.sound.read store trace, h.fixed, h.untouched, h.unsized, h.begun⟩

lemma withDraft (h : d.Orderly opened) {n : SchemaNode} (hsound : (d.withDraft n).Sound) :
    (d.withDraft n).Orderly opened where
  sound := hsound
  fixed := h.fixed
  untouched x hx hs t ht := by
    rcases List.mem_append.1 hx with hx | hx
    · exact h.untouched x hx hs t ht
    · rw [List.mem_singleton.1 hx] at ht
      cases ht
  unsized := h.unsized
  begun t ht := by
    obtain ⟨x, hx, hrest⟩ := h.begun t ht
    exact ⟨x, List.mem_append_left _ hx, hrest⟩

/-- The types that there are keep their members when another is declared behind them. -/
lemma memberNames_withType {id : DraftId} {c : Container} {name doc : String} (t : TypeId) :
    (d.withType id c name doc).model.memberNames t = d.model.memberNames t := by
  simp only [Model.memberNames, Drafting.withType]
  rcases Nat.lt_or_ge t d.model.types.length with ht | ht
  · rw [List.getElem?_append_left ht]
  · rw [List.getElem?_append_right ht, List.getElem?_eq_none ht]
    cases t - d.model.types.length <;> rfl

lemma withType (h : d.Orderly opened) {id : DraftId} {c : Container} {name doc : String} {x : Draft}
    (hx : d.drafts[id]? = some x) (hstarted : x.started = false)
    (hsound : (d.withType id c name doc).Sound) : (d.withType id c name doc).Orderly opened where
  sound := hsound
  fixed := h.fixed
  untouched y hy hs t ht := by
    rw [memberNames_withType]
    obtain ⟨i, hi⟩ := List.getElem?_of_mem hy
    obtain ⟨z, hz, rfl⟩ := getElem?_of_modify hi
    by_cases hid : id = i
    · rw [if_pos hid] at ht
      obtain rfl : d.model.types.length = t := Option.some.inj ht
      simp [Model.memberNames]
    · rw [if_neg hid] at hs ht
      exact h.untouched z (List.mem_of_getElem? hz) hs t ht
  unsized t ht := by
    rw [memberNames_withType]
    exact h.unsized t ht
  begun t ht := by
    obtain ⟨y, hy, hs, hwrapper⟩ := h.begun t ht
    obtain ⟨i, hi⟩ := List.getElem?_of_mem hy
    have hne : id ≠ i := by
      rintro rfl
      rw [hx] at hi
      rw [← Option.some.inj hi, hstarted] at hs
      cases hs
    refine ⟨y, List.mem_of_getElem? (i := i) ?_, hs, hwrapper⟩
    rw [Drafting.withType, List.getElem?_modify_ne _ _ hne, hi]

/-- A draft is started, and its type is one of those that are being filled. -/
lemma withStarted (h : d.Orderly opened) {id : DraftId} {x : Draft} (hx : d.drafts[id]? = some x)
    (hstarted : x.started = false) (hsound : (d.withStarted id).Sound) :
    (d.withStarted id).Orderly fun t => opened t ∨ x.wrapper? = some t where
  sound := hsound
  fixed := h.fixed
  untouched y hy hs t ht := by
    obtain ⟨i, hi⟩ := List.getElem?_of_mem hy
    obtain ⟨z, hz, rfl⟩ := getElem?_of_modify hi
    by_cases hid : id = i
    · rw [if_pos hid] at hs
      cases hs
    · rw [if_neg hid] at hs ht
      exact h.untouched z (List.mem_of_getElem? hz) hs t ht
  unsized t ht := by
    rcases ht with ht | ht
    · exact h.unsized t ht
    · show "size" ∉ d.model.memberNames t
      rw [h.untouched x (List.mem_of_getElem? hx) hstarted t ht]
      exact List.not_mem_nil
  begun t ht := by
    rcases ht with ht | ht
    · obtain ⟨y, hy, hs, hwrapper⟩ := h.begun t ht
      obtain ⟨i, hi⟩ := List.getElem?_of_mem hy
      refine ⟨if id = i then { y with started := true } else y, List.mem_of_getElem? (i := i) ?_, ?_, ?_⟩
      · simp [Drafting.withStarted, List.getElem?_modify, hi]
      · split
        · rfl
        · exact hs
      · split <;> exact hwrapper
    · refine ⟨{ x with started := true }, List.mem_of_getElem? (i := id) ?_, rfl, ht⟩
      simp [Drafting.withStarted, hx]

/-- The type of a draft that is not started is not being filled. -/
lemma not_opened (h : d.Orderly opened) {x : Draft} (hx : x ∈ d.drafts) (hstarted : x.started = false)
    (htype : x.wrapper? = some type) : ¬ opened type := by
  intro hopened
  obtain ⟨y, hy, hs, hwrapper⟩ := h.begun type hopened
  obtain ⟨i, hi⟩ := List.getElem?_of_mem hx
  obtain ⟨j, hj⟩ := List.getElem?_of_mem hy
  obtain rfl := h.sound.owner hi hj htype hwrapper
  rw [hi] at hj
  rw [← Option.some.inj hj, hstarted] at hs
  cases hs

/-- A type whose draft is started is given members; it gets no size while it is being filled. -/
lemma withChange (h : d.Orderly opened) {f : WrapperType → WrapperType} {names : List String}
    (hbegun : ∃ x ∈ d.drafts, x.started = true ∧ x.wrapper? = some type)
    (hnames : ∀ t, (f t).memberNames ⊆ t.memberNames ++ names) (hsize : opened type → "size" ∉ names) :
    (d.withChange type f).Orderly opened where
  sound := h.sound.withChange type f
  fixed := h.fixed
  untouched y hy hs t ht := by
    obtain ⟨x, hx, hstarted, hwrapper⟩ := hbegun
    obtain ⟨i, hi⟩ := List.getElem?_of_mem hx
    obtain ⟨j, hj⟩ := List.getElem?_of_mem hy
    have hne : type ≠ t := by
      rintro rfl
      obtain rfl := h.sound.owner hi hj hwrapper ht
      rw [Option.some.inj (hi.symm.trans hj), hs] at hstarted
      cases hstarted
    rw [show (d.withChange type f).model = d.model.update type f from rfl, Model.memberNames_update_of_ne hne]
    exact h.untouched y hy hs t ht
  unsized t ht := by
    rw [show (d.withChange type f).model = d.model.update type f from rfl]
    by_cases hne : type = t
    · subst hne
      intro hmem
      rcases Model.mem_memberNames_update hnames hmem with hmem | hmem
      · exact h.unsized type ht hmem
      · exact hsize ht hmem
    · rw [Model.memberNames_update_of_ne hne]
      exact h.unsized t ht
  begun := h.begun

end Orderly

/-! ## Declaring -/

section Declaring

variable {e : Failure}

lemma onStore_ne_error {α : Type} {steps : StoreM α} (hsteps : ∀ store, (outcome steps store).1 ≠ .error e)
    (d : Drafting) : (outcome (onStore steps) d).1 ≠ .error e := by
  obtain ⟨trace, ht⟩ := outcome_onStore d steps
  rw [ht]
  exact hsteps d.store

variable (he : e.isClash = true)

include he

lemma properties_ne_clash (n : SchemaNode) (d : Drafting) :
    (outcome (onStore (Store.properties s.loader n)) d).1 ≠ .error e := by
  refine onStore_ne_error (Store.properties_ne_error ?_ ?_ n) d
  · exact Failure.ofDocuments_of_isClash he
  · exact (Failure.ne_of_isClash he rfl).symm

lemma items_ne_clash (n : SchemaNode) (d : Drafting) :
    (outcome (onStore (Store.items s.loader n)) d).1 ≠ .error e := by
  refine onStore_ne_error (Store.items_ne_error ?_ ?_ n) d
  · exact Failure.ofDocuments_of_isClash he
  · exact (Failure.ne_of_isClash he rfl).symm

lemma draft_ne_clash (id : DraftId) (d : Drafting) : (outcome (draft id) d).1 ≠ .error e := by
  rw [outcome_draft]
  cases d.drafts[id]? with
  | none => exact fun h => Failure.ne_of_isClash he rfl (Except.error.inj h)
  | some x => simp

lemma attempts_ne_clash (d : Drafting) : (outcome (lift s.attempts) d).1 ≠ .error e := by
  rw [outcome_lift]
  unfold Setting.attempts
  split
  · simp
  · simp
  · exact fun h => Failure.ne_of_isClash he rfl (Except.error.inj h)

/-- A name that a sibling has is passed over. -/
lemma declareType_ne_clash (n : SchemaNode) (doc : String) (c : Container) (attempts : Nat) (base : String)
    (d : Drafting) : (outcome (declareType n doc c attempts attempts base) d).1 ≠ .error e := by
  intro hfails
  cases search_declareType n doc c attempts attempts base d le_rfl with
  | found k free before result =>
    obtain ⟨trace, hr⟩ := result
    rw [hr] at hfails
    cases hfails
  | gaveUp all result =>
    obtain ⟨trace, cause, hcause, hr⟩ := result
    rw [hr] at hfails
    refine Failure.ne_of_isClash he ?_ (Except.error.inj hfails)
    rcases List.mem_pair.1 hcause with rfl | rfl <;> rfl
  | overlong k o all endless result =>
    obtain ⟨trace, hr⟩ := result
    rw [hr] at hfails
    exact Failure.ne_of_isClash he rfl (Except.error.inj hfails)

lemma declareIn_ne_clash {container : DraftM Container} (hcontainer : ∀ d, (outcome container d).1 ≠ .error e)
    (n : SchemaNode) (d : Drafting) : (outcome (declareIn s n container) d).1 ≠ .error e := by
  rcases hl : d.registry.lookup n.uri with _ | _ | id
  · rw [outcome_declareIn_of_fresh hl]
    unfold giveType
    refine outcome_bind_ne_error ?_ fun needed t _ => ?_
    · unfold needsType
      split
      · exact outcome_bind_ne_error (properties_ne_clash he n _) fun _ _ _ => by simp
      · simp
      · simp
      · simp
    split
    · refine outcome_bind_ne_error (hcontainer t) fun c u _ => ?_
      refine outcome_bind_ne_error (attempts_ne_clash he u) fun attempts v _ => ?_
      refine outcome_bind_ne_error (declareType_ne_clash he n _ c attempts _ v) fun type w _ => ?_
      show (Except.ok d.drafts.length : Except Failure DraftId) ≠ .error e
      simp
    · rw [outcome_bind_of_ok (outcome_note t _)]
      simp
  · rw [outcome_declareIn_of_reserved hl]
    exact fun h => Failure.ne_of_isClash he rfl (Except.error.inj h)
  · rw [outcome_declareIn_of_found hl]
    simp

/-- No declaration fails of a clash. -/
lemma declare_ne_clash (n : SchemaNode) (d : Drafting) : (outcome (declare s n) d).1 ≠ .error e := by
  induction n generalizing d with
  | root site => exact declareIn_ne_clash he (fun d => by simp) _ d
  | inside parent site ih =>
    refine declareIn_ne_clash he (fun d => ?_) _ d
    refine outcome_bind_ne_error (ih d) fun outer t _ => ?_
    exact outcome_bind_ne_error (draft_ne_clash he outer t) fun _ _ _ => by simp

end Declaring

lemma orderly_lastsDeclaring : LastsDeclaring s (Orderly opened) where
  read _ store trace hd := hd.read store trace
  create _ _ hd step := hd.withDraft (step.sound hd.sound)
  declare _ _ _ _ _ hd hx _ step := hd.withType hx rfl (step.sound hd.sound)

lemma Orderly.declare (h : d.Orderly opened) (n : SchemaNode) :
    Ensures (declare s n) d (fun _ => Orderly opened) Fine := by
  have hkept : (outcome (Drafting.declare s n) d).2.Orderly opened := orderly_lastsDeclaring.of_declare n h
  refine ⟨fun id t hok => ?_, fun e t hfails => ?_⟩
  · rwa [hok] at hkept
  · rw [hfails] at hkept
    refine hkept.fine (Bool.eq_false_iff.2 fun hclash => ?_)
    exact declare_ne_clash hclash n d (congrArg Prod.fst hfails)

/-! ## Writing members -/

lemma memberNames_withMethods_subset (methods : List Method) (t : WrapperType) :
    (t.withMethods methods).memberNames ⊆ t.memberNames ++ methods.map (·.name) := by
  intro name hname
  rwa [WrapperType.memberNames_withMethods] at hname

lemma hasMember_withMethods {methods : List Method} {name : String} (h : d.model.hasMember type name = false)
    (hname : name ∉ methods.map (·.name)) :
    (d.withChange type (·.withMethods methods)).model.hasMember type name = false := by
  rw [← Bool.not_eq_true, Model.hasMember_iff, List.mem_append] at h ⊢
  rintro (hreserved | hmem)
  · exact h (.inl hreserved)
  · rcases Model.mem_memberNames_update (memberNames_withMethods_subset methods) hmem with hmem | hmem
    · exact h (.inr hmem)
    · exact hname hmem

namespace Orderly

lemma lift {α : Type} (h : d.Orderly opened) {r : Except Failure α} (hr : ∀ e, r = .error e → e.isClash = false) :
    Ensures (lift r) d (fun _ => Orderly opened) Fine :=
  ensures_mk_pure (fun _ _ => h) fun e he => h.fine (hr e he)

lemma attempts (h : d.Orderly opened) : Ensures (Drafting.lift s.attempts) d (fun _ => Orderly opened) Fine := by
  refine h.lift fun e he => Bool.eq_false_iff.2 fun hclash => ?_
  exact attempts_ne_clash hclash d he

/-- A method of a free name is added, and other names stay free. -/
lemma addMethod (h : d.Orderly opened) (hbegun : ∃ x ∈ d.drafts, x.started = true ∧ x.wrapper? = some type)
    {method : Method} (hfree : d.model.hasMember type method.name = false)
    (hsize : opened type → method.name ≠ "size") :
    Ensures (addMethod type method) d (fun _ d' => d'.Orderly opened ∧ ∀ name, name ≠ method.name →
      d.model.hasMember type name = false → d'.model.hasMember type name = false) Fine := by
  refine ensures_of_ok (outcome_addMethod_of_free hfree) ⟨?_, fun name hne hname => ?_⟩
  · refine h.withChange hbegun (memberNames_withMethods_subset [method]) fun hopened hmem => ?_
    exact hsize hopened (List.mem_singleton.1 hmem).symm
  · exact hasMember_withMethods hname fun hmem => hne (List.mem_singleton.1 hmem)

lemma writeScaffold (h : d.Orderly opened) (hopened : opened type) (hempty : d.model.memberNames type = [])
    (raw : RawKind) : Ensures (writeScaffold type raw) d (fun _ => Orderly opened) Fine := by
  have hnames : raw.field.name ∈ Naming.fixedNames ∧ raw.getter.name ∈ Naming.fixedNames ∧
      raw.getter.name ∉ [raw.field.name] ∧ "size" ∉ [raw.field.name] ∧ raw.getter.name ≠ "size" := by
    cases raw <;> decide
  obtain ⟨hfield, hgetter, hdifferent, hfieldSize, hgetterSize⟩ := hnames
  have hfree : d.model.hasMember type raw.field.name = false :=
    Model.hasMember_eq_false (h.fixed _ hfield) (hempty ▸ List.not_mem_nil)
  have hsub (t : WrapperType) : WrapperType.memberNames { t with
      fields := t.fields ++ [raw.field], constructors := t.constructors ++ [raw.constructor] } ⊆
        t.memberNames ++ [raw.field.name] := by
    intro name hname
    simp only [WrapperType.memberNames, List.map_append, List.mem_append] at hname ⊢
    tauto
  have hwith := h.withChange (h.begun type hopened) hsub fun _ => hfieldSize
  have hscaffold : outcome (Drafting.writeScaffold type raw) d =
      outcome (Drafting.addMethod type raw.getter) (d.withChange type fun t =>
        { t with fields := t.fields ++ [raw.field], constructors := t.constructors ++ [raw.constructor] }) := by
    rw [outcome_writeScaffold, hfree]
    rfl
  refine .of_outcome_eq hscaffold ((hwith.addMethod (hwith.begun type hopened) ?_ fun _ => hgetterSize).mono ?_)
  swap
  · exact fun _ _ _ hadded => hadded.1
  refine Model.hasMember_eq_false (h.fixed _ hgetter) fun hmem => ?_
  rcases Model.mem_memberNames_update hsub hmem with hmem | hmem
  · rw [hempty] at hmem
    cases hmem
  · exact hdifferent hmem

/-- The search for a suffix ends with one that makes free names. -/
lemma freeSuffix (h : d.Orderly opened) (stems : List String) (attempts : Nat) (base : String) :
    Ensures (freeSuffix type stems attempts base) d (fun suffix d' => d'.Orderly opened ∧
      ∀ stem ∈ stems, d'.model.hasMember type (stem ++ suffix) = false) Fine := by
  cases search_freeSuffix type stems attempts base d with
  | found k free before result =>
    obtain ⟨trace, hr⟩ := result
    refine ensures_of_ok hr ⟨h.read d.store trace, fun stem hstem => ?_⟩
    exact Bool.eq_false_iff.2 fun htaken => free ⟨stem, hstem, htaken⟩
  | gaveUp all result =>
    obtain ⟨trace, hr⟩ := result
    exact ensures_of_error hr ((h.read d.store trace).fine rfl)
  | overlong k o all endless result =>
    obtain ⟨trace, hr⟩ := result
    exact ensures_of_error hr ((h.read d.store trace).fine rfl)

lemma writeProperty (h : d.Orderly opened) (hopened : opened type) (raw : RawKind) (key : String) (required : Bool)
    (default? : Option Json) (x : Draft) :
    Ensures (writeProperty s type raw key required default? x) d (fun _ => Orderly opened) Fine := by
  unfold Drafting.writeProperty
  refine h.attempts.bind fun attempts d₁ _ h₁ => ?_
  refine (h₁.freeSuffix _ attempts _).bind fun suffix d₂ _ ⟨h₂, hfree⟩ => ?_
  have hstem := x.type.getterStem_mem
  have hgetter : d₂.model.hasMember type (x.type.getterStem ++ suffix) = false := by
    refine hfree _ ?_
    split <;> exact List.mem_cons_self
  refine (h₂.addMethod (h₂.begun type hopened) hgetter fun _ => Naming.append_ne_size hstem suffix).bind
    fun _ d₃ _ ⟨h₃, hkept⟩ => ?_
  split
  · next hchecked =>
    have hchecker : d₂.model.hasMember type ("has" ++ suffix) = false := by
      refine hfree _ ?_
      rw [if_pos hchecked]
      simp
    have hne : "has" ++ suffix ≠ x.type.getterStem ++ suffix := fun hsame =>
      x.type.getterStem_ne_has ((String.append_left_inj suffix).1 hsame).symm
    refine (h₃.addMethod (h₃.begun type hopened) (hkept _ hne hchecker) fun _ => ?_).mono fun _ _ _ hadded => hadded.1
    exact Naming.append_ne_size (by decide) suffix
  · exact ensures_pure h₃

lemma writeItem (h : d.Orderly opened) (hopened : opened type) (raw : RawKind) (default? : Option Json) (x : Draft) :
    Ensures (writeItem s type raw default? x) d (fun _ => Orderly opened) Fine := by
  unfold Drafting.writeItem
  refine ensures_bind_of_ok (outcome_get d) (h.attempts.bind fun attempts d₁ _ h₁ => ?_)
  refine (h₁.freeSuffix _ attempts _).bind fun suffix d₂ _ ⟨h₂, hfree⟩ => ?_
  refine (h₂.addMethod (h₂.begun type hopened) (hfree _ List.mem_cons_self) fun _ => ?_).mono fun _ _ _ hadded => hadded.1
  exact Naming.append_ne_size x.type.getterStem_mem suffix

lemma skip (h : d.Orderly opened) (entry : MalformedEntry) :
    Ensures (skip s entry) d (fun _ => Orderly opened) Fine := by
  unfold Drafting.skip
  split
  · exact ensures_throw (h.fine rfl)
  · exact ensures_of_ok (outcome_note d _) (h.read d.store _)

/-- The size is added last, behind which the type may have it. -/
lemma fillSize (h : d.Orderly opened') (hopened : opened' type) (hsub : ∀ t, opened t → opened' t)
    (hnot : ¬ opened type) (x : Draft) : Ensures (fillSize type x) d (fun _ => Orderly opened) Fine := by
  unfold Drafting.fillSize
  split
  · have hfree : d.model.hasMember type "size" = false :=
      Model.hasMember_eq_false (h.fixed _ List.mem_cons_self) (h.unsized type hopened)
    refine ((h.mono hsub).addMethod (h.begun type hopened) hfree fun hagain => ?_).mono fun _ _ _ hadded => hadded.1
    exact (hnot hagain).elim
  · exact ensures_pure (h.mono hsub)

/-! ## Filling -/

lemma draft (h : d.Orderly opened) (id : DraftId) : Ensures (draft id) d (fun _ => Orderly opened) Fine := by
  refine ⟨fun x t hok => ?_, fun e t hfails => ?_⟩
  · obtain ⟨-, rfl⟩ := of_draft_eq_ok hok
    exact h
  · have hkept : (outcome (Drafting.draft id) d).2.Orderly opened := by
      rwa [outcome_draft]
    rw [hfails] at hkept
    exact hkept.fine (Bool.eq_false_iff.2 fun hclash => draft_ne_clash hclash id d (congrArg Prod.fst hfails))

lemma onStore (h : d.Orderly opened) {α : Type} {steps : StoreM α}
    (hsteps : ∀ e, e.isClash = true → (outcome (onStore steps) d).1 ≠ .error e) :
    Ensures (onStore steps) d (fun _ => Orderly opened) Fine := by
  obtain ⟨trace, ht⟩ := outcome_onStore d steps
  have hkept : (outcome (Drafting.onStore steps) d).2.Orderly opened := by
    rw [ht]
    exact h.read _ trace
  refine ⟨fun x t hok => ?_, fun e t hfails => ?_⟩
  · rwa [hok] at hkept
  · rw [hfails] at hkept
    exact hkept.fine (Bool.eq_false_iff.2 fun hclash => hsteps e hclash (congrArg Prod.fst hfails))

section Filling

variable {fuel : Nat} (hfill : ∀ (opened : TypeId → Prop) (id : DraftId) (d : Drafting), d.Orderly opened →
  Ensures (fill s fuel id) d (fun _ => Orderly opened) Fine)

include hfill

lemma drafted (h : d.Orderly opened) (n : SchemaNode) :
    Ensures (drafted s fuel n) d (fun _ => Orderly opened) Fine :=
  (h.declare n).bind fun id d₁ _ h₁ => (hfill opened id d₁ h₁).bind fun _ _ _ h₂ => h₂.draft id

lemma fillProperty (h : d.Orderly opened) (hopened : opened type) (x : Draft) (p : String × Entry) :
    Ensures (fillProperty s fuel type x p) d (fun _ => Orderly opened) Fine := by
  unfold Drafting.fillProperty
  split
  · exact h.skip _
  · exact (h.drafted hfill _).bind fun y _ _ h₁ => h₁.writeProperty hopened _ _ _ _ y

lemma fillItem (h : d.Orderly opened) (hopened : opened type) (x : Draft) (p : Entry × Nat) :
    Ensures (fillItem s fuel type x p) d (fun _ => Orderly opened) Fine := by
  unfold Drafting.fillItem
  split
  · exact h.skip _
  · exact (h.drafted hfill _).bind fun y _ _ h₁ => h₁.writeItem hopened _ _ y

/-- A type without members is filled. -/
lemma fillType (h : d.Orderly opened') (hopened : opened' type) (hempty : d.model.memberNames type = [])
    (hsub : ∀ t, opened t → opened' t) (hnot : ¬ opened type) (x : Draft) :
    Ensures (fillType s fuel type x) d (fun _ => Orderly opened) Fine := by
  unfold Drafting.fillType
  refine (h.writeScaffold hopened hempty x.raw).bind fun _ d₁ _ h₁ => ?_
  refine (h₁.onStore fun e he => properties_ne_clash he x.node d₁).bind fun properties d₂ _ h₂ => ?_
  refine (ensures_forM (fun p _ d h => h.fillProperty hfill hopened x p) h₂).bind fun _ d₃ _ h₃ => ?_
  refine (h₃.onStore fun e he => items_ne_clash he x.node d₃).bind fun items d₄ _ h₄ => ?_
  refine (ensures_forM (fun p _ d h => h.fillItem hfill hopened x p) h₄).bind fun _ d₅ _ h₅ => ?_
  exact h₅.fillSize hopened hsub hnot x

end Filling

/-- Filling a draft adds no member twice, whichever drafts are being filled around it. -/
lemma fill (h : d.Orderly opened) (fuel : Nat) (id : DraftId) :
    Ensures (fill s fuel id) d (fun _ => Orderly opened) Fine := by
  induction fuel generalizing opened id d with
  | zero => exact ensures_throw (h.fine rfl)
  | succ fuel ih =>
    rw [fill_succ]
    cases hx : d.drafts[id]? with
    | none =>
      refine ensures_of_error (outcome_bind_of_error (t := d) (e := .noDraft) ?_) (h.fine rfl)
      rw [outcome_draft, hx]
      rfl
    | some x =>
      refine ensures_bind_of_ok (outcome_draft_of_some d hx) ?_
      split
      · exact ensures_pure h
      next hunstarted =>
      have hstarted : x.started = false := by simpa using hunstarted
      have hsound : (d.withStarted id).Sound := (Step.start (s := s) hx hstarted).sound h.sound
      have hwith := h.withStarted hx hstarted hsound
      refine ensures_bind_of_ok (outcome_update d id _) ?_
      unfold fillDraft
      split
      · exact ensures_pure (hwith.mono fun t ht => .inl ht)
      · next type htype =>
        have hmem := List.mem_of_getElem? hx
        refine hwith.fillType (fun opened id d h => ih h id) (.inr htype) ?_ (fun t ht => .inl ht) ?_ x
        · exact h.untouched x hmem hstarted type htype
        · exact h.not_opened hmem hstarted htype

lemma complete (h : d.Orderly opened) (n : SchemaNode) :
    Ensures (complete s n) d (fun _ => Orderly opened) Fine := by
  refine (h.declare n).bind fun id d₁ _ h₁ => ensures_bind_of_ok (outcome_bound d₁) ?_
  exact (h₁.fill _ id).bind fun _ _ _ h₂ => ensures_pure h₂

lemma finishIn (h : d.Orderly opened) (rounds : Nat) :
    Ensures (finishIn s rounds) d (fun _ => Orderly opened) Fine := by
  induction rounds generalizing d with
  | zero => exact ensures_throw (h.fine rfl)
  | succ rounds ih =>
    rw [finishIn_succ]
    refine ensures_bind_of_ok (outcome_pending h.sound) ?_
    split
    · exact ensures_pure h
    · refine (ensures_forM (fun id _ d h => ?_) h).bind fun _ d₁ _ h₁ => ih h₁
      refine (h.draft id).bind fun x d₁ _ h₁ => ?_
      refine ensures_bind_of_ok (outcome_note d₁ _) (ensures_bind_of_ok (outcome_bound _) ?_)
      exact (h₁.read d₁.store _).fill _ id

end Orderly

/-! ## Calls -/

lemma orderly_start (store : Store) {model : Model} (hfixed : ∀ name ∈ Naming.fixedNames, name ∉ model.reservedMembers) :
    (start store model).Orderly fun _ => False :=
  ⟨sound_start store model, hfixed, fun _ hx => (List.not_mem_nil hx).elim, fun _ => False.elim, fun _ => False.elim⟩

lemma Orderly.call (h : d.Orderly fun _ => False) (c : Call) :
    Ensures (c.steps s) d (fun _ => Orderly fun _ => False) Fine := by
  cases c with
  | complete n => exact (h.complete n).bind fun _ _ _ h₁ => ensures_pure h₁
  | declare n => exact (h.declare n).bind fun _ _ _ h₁ => ensures_pure h₁
  | finish => exact ensures_bind_of_ok (outcome_bound d) (h.finishIn _)

lemma Orderly.call_ne_clash (h : d.Orderly fun _ => False) (c : Call) {e : Failure} (he : e.isClash = true) :
    (outcome (c.steps s) d).1 ≠ .error e := by
  intro hfails
  have hcall : Ensures (c.steps s) d (fun _ => Orderly fun _ => False) Fine := h.call c
  have hfine := (hcall.fails (Prod.ext hfails rfl)).1
  rw [he] at hfine
  exact Bool.noConfusion hfine

/-- Drafting is in order behind any calls, those that failed among them. -/
lemma Orderly.afterCalls (h : d.Orderly fun _ => False) (calls : List Call) :
    (afterCalls s d calls).Orderly fun _ => False := by
  induction calls generalizing d with
  | nil => exact h
  | cons c calls ih =>
    refine ih ?_
    have hcall : Ensures (c.steps s) d (fun _ => Orderly fun _ => False) Fine := h.call c
    show (outcome (c.steps s) d).2.Orderly fun _ => False
    rcases houtcome : outcome (c.steps s) d with ⟨e | ⟨⟩, d'⟩
    · exact (hcall.fails houtcome).2
    · exact hcall.succeeds houtcome

/-- Whatever is asked of a pass and whatever failed before, no call fails because a type or a member of a name is there
already. A name that is taken is only passed over in the search for a free one, so each field and method is added
under a name that is free then. -/
theorem names_free_in_calls (loader : Loader) (config : Config) (l : Language) (namespaceName : String) (store : Store)
    (calls : List Call) (c : Call) :
    let (s, d) := beginPass loader config l namespaceName store
    (∀ name, (outcome (c.steps s) (afterCalls s d calls)).1 ≠ .error (.typeExists name)) ∧
      ∀ typeName name, (outcome (c.steps s) (afterCalls s d calls)).1 ≠ .error (.memberExists typeName name) := by
  have hfixed : ∀ name ∈ Naming.fixedNames, name ∉ l.model.reservedMembers := by
    cases l <;> decide
  have hstart : (beginPass loader config l namespaceName store).2.Orderly fun _ => False := by
    have hmembers := reservedMembers_beginPass loader config l namespaceName store
    rw [snd_beginPass]
    exact orderly_start store fun name hname => hmembers ▸ hfixed name hname
  have hcalled : (afterCalls (beginPass loader config l namespaceName store).1
      (beginPass loader config l namespaceName store).2 calls).Orderly fun _ => False := hstart.afterCalls calls
  exact ⟨fun _ => hcalled.call_ne_clash c rfl, fun _ _ => hcalled.call_ne_clash c rfl⟩

end Drafting

end SchemaAccessors
