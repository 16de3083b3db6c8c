import SchemaAccessors.Proofs.Ledger
import SchemaAccessors.Proofs.Printing
import SchemaAccessors.Proofs.Scoping

/-!
# The wording of types

A type is documented by the node that it is declared for, and its methods are named after keys and after other
types. Whatever is asked of a pass, and whether it succeeds or not, every type has the documentation of the node of
some draft, and every method a name that is a stem and a suffix spelled like the name of a type (`Worded`). Each step
of drafting is shown to keep this; the steps that write members need it for the types that there are, after which
they name methods.
-/

namespace SchemaAccessors

/-! ## Names of methods -/

namespace Naming

/-- How the names of getters and checkers begin. -/
def methodStems : List String := ["get", "is", "has"]

/-- A name is spelled like the name of a method: it is `size`, or a stem before the name of a type. -/
def IsMethodName (name : String) : Prop :=
  name = "size" ∨ ∃ stem ∈ methodStems, ∃ suffix, isTypeName suffix = true ∧ name = stem ++ suffix

/-- The name of a method has letters and digits only. -/
lemma IsMethodName.isAlphanum {name : String} (h : IsMethodName name) : ∀ c ∈ name.toList, c.isAlphanum = true := by
  rcases h with rfl | ⟨stem, hstem, suffix, hsuffix, rfl⟩
  · decide
  · have hstems : ∀ stem ∈ methodStems, ∀ c ∈ stem.toList, c.isAlphanum = true := by decide
    rw [String.toList_append]
    exact List.forall_mem_append.2 ⟨hstems stem hstem, all_isAlphanum_of_isTypeName hsuffix⟩

lemma isMethodName_append {stem suffix : String} (hstem : stem ∈ methodStems) (hsuffix : isTypeName suffix = true) :
    IsMethodName (stem ++ suffix) :=
  .inr ⟨stem, hstem, suffix, hsuffix, rfl⟩

end Naming

lemma TypeRef.getterStem_mem (r : TypeRef) : r.getterStem ∈ Naming.methodStems := by
  unfold getterStem
  split <;> decide

lemma RawKind.isAlphanum_field (raw : RawKind) : ∀ c ∈ raw.field.name.toList, c.isAlphanum = true := by
  cases raw <;> decide +kernel

lemma RawKind.isMethodName_getter (raw : RawKind) : Naming.IsMethodName raw.getter.name := by
  have hspelled : Naming.isTypeName raw.name = true := by
    cases raw <;> decide
  exact Naming.isMethodName_append (TypeRef.getterStem_mem _) hspelled

lemma Model.isTypeName_nameOf {m : Model} (h : m.Spelled) {id : TypeId} (hid : id < m.types.length) :
    Naming.isTypeName (m.nameOf id) = true := by
  rw [nameOf_eq (List.getElem?_eq_getElem hid)]
  exact h _ (List.getElem_mem hid)

namespace Drafting

/-! ## The invariant -/

/-- The types are named and documented as drafts have it, no member has a name that is reserved, and drafts know
types that there are. -/
structure Worded (s : Setting) (d : Drafting) : Prop where
  spelled : d.model.Spelled
  documented : ∀ t ∈ d.model.types, ∃ x ∈ d.drafts, t.doc = documentation s x.node
  named : ∀ t ∈ d.model.types, ∀ method ∈ t.methods, Naming.IsMethodName method.name
  unreserved : ∀ t ∈ d.model.types, ∀ name ∈ t.memberNames, name ∉ d.model.reservedMembers
  typed : ∀ x ∈ d.drafts, ∀ t : Nat, x.wrapper? = some t → t < d.model.types.length

section

variable {s : Setting} {d d' : Drafting}

lemma worded_start (s : Setting) (store : Store) {model : Model} (h : model.types = []) :
    (start store model).Worded s := by
  refine ⟨?_, ?_, ?_, ?_, fun x hx => (List.not_mem_nil hx).elim⟩ <;> intro t ht <;> simp [start, h] at ht

/-- What is read and what is noted does not matter. -/
lemma Worded.read (h : d.Worded s) (store : Store) (trace : Trace) : Worded s { d with store, trace } :=
  ⟨h.spelled, h.documented, h.named, h.unreserved, h.typed⟩

lemma Worded.of_model (h : d.Worded s) (hnodes : d.KeepsNodes d') (hmodel : d'.model = d.model)
    (hwrappers : ∀ x ∈ d'.drafts, ∀ t : Nat, x.wrapper? = some t → ∃ y ∈ d.drafts, y.wrapper? = some t) :
    d'.Worded s where
  spelled := hmodel ▸ h.spelled
  documented t ht := by
    obtain ⟨x, hx, hdoc⟩ := h.documented t (hmodel ▸ ht)
    obtain ⟨y, hy, hnode⟩ := hnodes.exists_mem hx
    exact ⟨y, hy, by rw [hnode, hdoc]⟩
  named := hmodel ▸ h.named
  unreserved := hmodel ▸ h.unreserved
  typed x hx t ht := by
    obtain ⟨y, hy, hwrapper⟩ := hwrappers x hx t ht
    rw [hmodel]
    exact h.typed y hy t hwrapper

lemma Worded.withDraft (h : d.Worded s) (n : SchemaNode) : (d.withDraft n).Worded s := by
  refine h.of_model (.of_append (List.prefix_append _ _)) rfl fun x hx t ht => ?_
  rcases List.mem_append.1 hx with hx | hx
  · exact ⟨x, hx, ht⟩
  · rw [List.mem_singleton.1 hx] at ht
    cases ht

lemma Worded.withStarted (h : d.Worded s) (id : DraftId) : (d.withStarted id).Worded s := by
  refine h.of_model (keepsNodes_modify rfl (fun _ => rfl) fun _ _ => rfl) rfl fun x hx t ht => ?_
  obtain ⟨i, hi⟩ := List.getElem?_of_mem hx
  obtain ⟨y, hy, rfl⟩ := getElem?_of_modify hi
  refine ⟨y, List.mem_of_getElem? hy, ?_⟩
  split at ht <;> exact ht

/-- A change of the members of a type keeps this if new methods are named like methods, and new members are not
named like reserved ones. -/
lemma Worded.withChange {type : TypeId} {f : WrapperType → WrapperType} (h : d.Worded s)
    (same : ∀ t, (f t).name = t.name ∧ (f t).doc = t.doc)
    (hmethods : ∀ t, ∀ method ∈ (f t).methods, method ∈ t.methods ∨ Naming.IsMethodName method.name)
    (hmembers : ∀ t, ∀ name ∈ (f t).memberNames, name ∈ t.memberNames ∨ name ∉ d.model.reservedMembers) :
    (d.withChange type f).Worded s := by
  have hchanged {t : WrapperType} (ht : t ∈ (d.withChange type f).model.types) :
      ∃ u ∈ d.model.types, t = u ∨ t = f u := by
    obtain ⟨i, hi⟩ := List.getElem?_of_mem ht
    obtain ⟨u, hu, rfl⟩ := getElem?_of_modify hi
    refine ⟨u, List.mem_of_getElem? hu, ?_⟩
    split
    · exact .inr rfl
    · exact .inl rfl
  constructor
  · intro t ht
    obtain ⟨u, hu, rfl | rfl⟩ := hchanged ht
    · exact h.spelled t hu
    · rw [(same u).1]
      exact h.spelled u hu
  · intro t ht
    obtain ⟨u, hu, rfl | rfl⟩ := hchanged ht
    · exact h.documented t hu
    · rw [(same u).2]
      exact h.documented u hu
  · intro t ht method hmethod
    obtain ⟨u, hu, rfl | rfl⟩ := hchanged ht
    · exact h.named t hu method hmethod
    · exact (hmethods u method hmethod).elim (h.named u hu method) id
  · intro t ht name hname
    obtain ⟨u, hu, rfl | rfl⟩ := hchanged ht
    · exact h.unreserved t hu name hname
    · exact (hmembers u name hname).elim (h.unreserved u hu name) id
  · intro x hx t ht
    have hlt := h.typed x hx t ht
    simpa [Drafting.withChange, Model.update] using hlt

/-- A type that is declared for a draft is documented by the node of the draft. -/
lemma Worded.withType {id : DraftId} {x : Draft} {name : String} (h : d.Worded s) (hx : d.drafts[id]? = some x)
    (hspelled : Naming.isTypeName name = true) (c : Container) :
    (d.withType id c name (documentation s x.node)).Worded s := by
  have hnodes : d.KeepsNodes (d.withType id c name (documentation s x.node)) :=
    keepsNodes_modify rfl (fun _ => rfl) fun _ hs => hs
  constructor
  · intro t ht
    rcases List.mem_append.1 ht with ht | ht
    · exact h.spelled t ht
    · rw [List.mem_singleton.1 ht]
      exact hspelled
  · intro t ht
    rcases List.mem_append.1 ht with ht | ht
    · obtain ⟨y, hy, hdoc⟩ := h.documented t ht
      obtain ⟨z, hz, hnode⟩ := hnodes.exists_mem hy
      exact ⟨z, hz, by rw [hnode, hdoc]⟩
    · obtain ⟨z, hz, hnode⟩ := hnodes.exists_mem (List.mem_of_getElem? hx)
      exact ⟨z, hz, by rw [List.mem_singleton.1 ht, hnode]⟩
  · intro t ht method hmethod
    rcases List.mem_append.1 ht with ht | ht
    · exact h.named t ht method hmethod
    · rw [List.mem_singleton.1 ht] at hmethod
      cases hmethod
  · intro t ht name hname
    rcases List.mem_append.1 ht with ht | ht
    · exact h.unreserved t ht name hname
    · rw [List.mem_singleton.1 ht] at hname
      cases hname
  · intro y hy t ht
    rw [show (d.withType id c name (documentation s x.node)).model.types.length = d.model.types.length + 1 from
      List.length_append]
    obtain ⟨i, hi⟩ := List.getElem?_of_mem hy
    obtain ⟨z, hz, rfl⟩ := getElem?_of_modify hi
    split at ht
    · have hlast : d.model.types.length = t := Option.some.inj ht
      omega
    · have hlt := h.typed z (List.mem_of_getElem? hz) t ht
      omega

end

/-! ## Steps that keep it -/

/-- The types of a state are worded well if those of an earlier one are. -/
def KeepsWording (s : Setting) (d d' : Drafting) : Prop :=
  d.Worded s → d'.Worded s

lemma KeepsWording.refl (s : Setting) (d : Drafting) : KeepsWording s d d := fun h => h

lemma KeepsWording.trans {s : Setting} {d d' d'' : Drafting} (h : KeepsWording s d d')
    (h' : KeepsWording s d' d'') : KeepsWording s d d'' :=
  h' ∘ h

section

variable {α β : Type} {s : Setting} {type : TypeId}

lemma keepsWording_bind {x : DraftM α} {f : α → DraftM β}
    (hx : ∀ d, KeepsWording s d (outcome x d).2) (hf : ∀ a d, KeepsWording s d (outcome (f a) d).2)
    (d : Drafting) : KeepsWording s d (outcome (x >>= f) d).2 :=
  outcome_bind_leads .trans (hx d) fun a t _ => hf a t

lemma keepsWording_forM {f : α → DraftM PUnit} {xs : List α}
    (hf : ∀ a ∈ xs, ∀ d, KeepsWording s d (outcome (f a) d).2) (d : Drafting) :
    KeepsWording s d (outcome (xs.forM f) d).2 :=
  outcome_forM_leads (fun _ => id) .trans xs hf d

lemma keepsWording_note (e : Event) (d : Drafting) : KeepsWording s d (outcome (note e) d).2 := fun h =>
  h.read d.store _

lemma keepsWording_draft (id : DraftId) (d : Drafting) : KeepsWording s d (outcome (draft id) d).2 := by
  rw [outcome_draft]
  exact .refl s d

lemma keepsWording_onStore (steps : StoreM α) (d : Drafting) :
    KeepsWording s d (outcome (onStore steps) d).2 := by
  obtain ⟨trace, ht⟩ := outcome_onStore d steps
  rw [ht]
  exact fun h => h.read _ _

/-! ### Declaring -/

lemma worded_lastsDeclaring : LastsDeclaring s (Worded s) where
  read _ store trace hd := hd.read store trace
  create _ n hd _ := hd.withDraft n
  declare _ _ _ c _ hd hx hspelled _ := hd.withType hx hspelled c

lemma keepsWording_declare (n : SchemaNode) (d : Drafting) : KeepsWording s d (outcome (declare s n) d).2 :=
  worded_lastsDeclaring.of_declare n

/-! ### Writing members -/

lemma not_reserved_of_hasMember {m : Model} {name : String} (h : m.hasMember type name = false) :
    name ∉ m.reservedMembers := by
  simp only [Model.hasMember, Bool.or_eq_false_iff, List.contains_eq_mem, decide_eq_false_iff_not] at h
  exact h.1

lemma keepsWording_addMethod {method : Method} (hname : Naming.IsMethodName method.name) (d : Drafting) :
    KeepsWording s d (outcome (addMethod type method) d).2 := by
  cases hm : d.model.hasMember type method.name with
  | true =>
    rw [outcome_addMethod_of_taken hm]
    exact .refl s d
  | false =>
    rw [outcome_addMethod_of_free hm]
    have hfree := not_reserved_of_hasMember hm
    refine fun h => h.withChange (fun _ => ⟨rfl, rfl⟩) (fun t m hmem => ?_) fun t name hmem => ?_
    · rcases List.mem_append.1 hmem with hmem | hmem
      · exact .inl hmem
      · rw [List.mem_singleton.1 hmem]
        exact .inr hname
    · rw [WrapperType.memberNames, WrapperType.withMethods, List.map_append, ← List.append_assoc] at hmem
      rcases List.mem_append.1 hmem with hmem | hmem
      · exact .inl hmem
      · rw [List.mem_singleton.1 hmem]
        exact .inr hfree

lemma keepsWording_writeScaffold (raw : RawKind) (d : Drafting) :
    KeepsWording s d (outcome (writeScaffold type raw) d).2 := by
  rw [outcome_writeScaffold]
  split
  · exact .refl s d
  · next hm =>
    have hfree := not_reserved_of_hasMember (by simpa using hm)
    intro h
    refine keepsWording_addMethod raw.isMethodName_getter _
      (h.withChange (fun _ => ⟨rfl, rfl⟩) (fun t m hmem => .inl hmem) fun t name hmem => ?_)
    rw [WrapperType.memberNames, List.map_append, List.append_assoc] at hmem
    rcases List.mem_append.1 hmem with hmem | hmem
    · exact .inl (List.mem_append_left _ hmem)
    · rcases List.mem_append.1 hmem with hmem | hmem
      · rw [List.mem_singleton.1 hmem]
        exact .inr hfree
      · exact .inl (List.mem_append_right _ hmem)

lemma keepsWording_freeSuffix (stems : List String) (left : Nat) (suffix : String) (d : Drafting) :
    KeepsWording s d (outcome (freeSuffix type stems left suffix) d).2 := by
  induction left generalizing suffix d with
  | zero => exact .refl s d
  | succ left ih =>
    unfold freeSuffix
    rw [outcome_bind_of_ok (outcome_get d)]
    dsimp only
    split
    · exact keepsWording_bind (keepsWording_note _) (fun _ => keepsWording_bind (.refl s) ih) d
    · exact .refl s d

/-- The suffix that is found is spelled like the name of a type, if the first one is. -/
lemma isTypeName_of_freeSuffix {stems : List String} {left : Nat} {suffix found : String} {d d' : Drafting}
    (hsuffix : Naming.isTypeName suffix = true)
    (h : outcome (freeSuffix type stems left suffix) d = (.ok found, d')) : Naming.isTypeName found = true := by
  induction left generalizing suffix d with
  | zero =>
    obtain ⟨e, u, -, hthrow⟩ := outcome_bind_eq_ok h
    simp at hthrow
  | succ left ih =>
    unfold freeSuffix at h
    rw [outcome_bind_of_ok (outcome_get d)] at h
    dsimp only at h
    split at h
    · rw [outcome_bind_of_ok (outcome_note d _)] at h
      obtain ⟨next, u, hnext, hrest⟩ := outcome_bind_eq_ok h
      have hvaried : Naming.next suffix = .ok next := by
        have hresult := congrArg Prod.fst hnext
        rw [nextName, outcome_lift] at hresult
        exact mapError_eq_ok.1 hresult
      exact ih (Naming.isTypeName_of_next hsuffix hvaried) hrest
    · obtain rfl : suffix = found := by simpa using congrArg Prod.fst h
      exact hsuffix

lemma keepsWording_writeProperty (raw : RawKind) (key : String) (required : Bool) (default? : Option Json)
    (x : Draft) (d : Drafting) :
    KeepsWording s d (outcome (writeProperty s type raw key required default? x) d).2 := by
  unfold writeProperty
  refine keepsWording_bind (.refl s) (fun attempts d => ?_) d
  refine outcome_bind_leads .trans (keepsWording_freeSuffix _ _ _ d) fun suffix t hsuffix => ?_
  have hfound := isTypeName_of_freeSuffix (Naming.isTypeName_identifier key) hsuffix
  refine keepsWording_bind (keepsWording_addMethod ?_) (fun _ d => ?_) t
  · exact Naming.isMethodName_append x.type.getterStem_mem hfound
  · split
    · have hchecker : Naming.IsMethodName ("has" ++ suffix) := Naming.isMethodName_append (by decide) hfound
      exact keepsWording_addMethod hchecker d
    · exact .refl s d

/-- The getter for an item is named after the type of its draft, which there has to be. -/
lemma keepsWording_writeItem (raw : RawKind) (default? : Option Json) {x : Draft} {d : Drafting} (hx : x ∈ d.drafts) :
    KeepsWording s d (outcome (writeItem s type raw default? x) d).2 := by
  intro hd
  unfold writeItem
  rw [outcome_bind_of_ok (outcome_get d)]
  refine keepsWording_bind (.refl s) (fun attempts d => ?_) d hd
  refine outcome_bind_leads .trans (keepsWording_freeSuffix _ _ _ d) fun suffix t hsuffix => ?_
  refine keepsWording_addMethod ?_ t
  refine Naming.isMethodName_append x.type.getterStem_mem (isTypeName_of_freeSuffix ?_ hsuffix)
  split
  · next wrapper hwrapper => exact Model.isTypeName_nameOf hd.spelled (hd.typed x hx wrapper hwrapper)
  · exact Naming.isTypeName_typeName _

lemma keepsWording_skip (entry : MalformedEntry) (d : Drafting) :
    KeepsWording s d (outcome (skip s entry) d).2 := by
  unfold skip
  split
  · exact .refl s d
  · exact keepsWording_note _ d

/-! ### Filling -/

section Filling

variable {fuel : Nat}

lemma keepsWording_drafted (hfill : ∀ id d, KeepsWording s d (outcome (fill s fuel id) d).2) (n : SchemaNode) :
    ∀ d, KeepsWording s d (outcome (drafted s fuel n) d).2 :=
  keepsWording_bind (keepsWording_declare n) fun id => keepsWording_bind (hfill id) fun _ => keepsWording_draft id

lemma keepsWording_fillProperty (hfill : ∀ id d, KeepsWording s d (outcome (fill s fuel id) d).2) (x : Draft)
    (p : String × Entry) (d : Drafting) : KeepsWording s d (outcome (fillProperty s fuel type x p) d).2 := by
  unfold fillProperty
  split
  · exact keepsWording_skip _ d
  · exact keepsWording_bind (keepsWording_drafted hfill _) (fun y => keepsWording_writeProperty _ _ _ _ y) d

lemma keepsWording_fillItem (hfill : ∀ id d, KeepsWording s d (outcome (fill s fuel id) d).2) (x : Draft)
    (p : Entry × Nat) (d : Drafting) : KeepsWording s d (outcome (fillItem s fuel type x p) d).2 := by
  unfold fillItem
  split
  · exact keepsWording_skip _ d
  · refine outcome_bind_leads .trans (keepsWording_drafted hfill _ d) fun y t hy => ?_
    exact keepsWording_writeItem _ _ (mem_of_drafted hy)

lemma keepsWording_fillSize (x : Draft) (d : Drafting) :
    KeepsWording s d (outcome (fillSize type x) d).2 := by
  unfold fillSize
  split
  · exact keepsWording_addMethod (.inl rfl) d
  · exact .refl s d

lemma keepsWording_fillType (hfill : ∀ id d, KeepsWording s d (outcome (fill s fuel id) d).2) (x : Draft) :
    ∀ d, KeepsWording s d (outcome (fillType s fuel type x) d).2 := by
  unfold fillType
  refine keepsWording_bind (keepsWording_writeScaffold _) fun _ => ?_
  refine keepsWording_bind (keepsWording_onStore _) fun properties => ?_
  refine keepsWording_bind (keepsWording_forM fun p _ => keepsWording_fillProperty hfill x p) fun _ => ?_
  refine keepsWording_bind (keepsWording_onStore _) fun items => ?_
  exact keepsWording_bind (keepsWording_forM fun p _ => keepsWording_fillItem hfill x p) fun _ =>
    keepsWording_fillSize x

lemma keepsWording_fill (fuel : Nat) (id : DraftId) (d : Drafting) :
    KeepsWording s d (outcome (fill s fuel id) d).2 := by
  induction fuel generalizing id d with
  | zero => exact .refl s d
  | succ fuel ih =>
    rw [fill_succ]
    refine keepsWording_bind (keepsWording_draft id) (fun x => ?_) d
    split
    · exact .refl s
    · refine keepsWording_bind (fun d => ?_) fun _ => ?_
      · exact fun h => h.withStarted id
      · unfold fillDraft
        split
        · exact .refl s
        · exact keepsWording_fillType ih x

lemma keepsWording_pending (d : Drafting) : KeepsWording s d (outcome pending d).2 := by
  have hone (r : String × Option DraftId) (d : Drafting) : KeepsWording s d (outcome (registered r) d).2 := by
    obtain ⟨uri, _ | id⟩ := r
    · exact .refl s d
    · exact .refl s d
  rw [pending_eq]
  refine keepsWording_bind (.refl s) (fun e => keepsWording_bind (fun d => ?_) fun _ => .refl s) d
  exact outcome_mapM_leads (.refl s) .trans _ (fun r _ => hone r) d

lemma keepsWording_finishIn (rounds : Nat) (d : Drafting) : KeepsWording s d (outcome (finishIn s rounds) d).2 := by
  have hone (id : DraftId) : ∀ d, KeepsWording s d (outcome (finishOne s id) d).2 :=
    keepsWording_bind (keepsWording_draft id) fun _ => keepsWording_bind (keepsWording_note _) fun _ =>
      keepsWording_bind (.refl s) fun fuel => keepsWording_fill fuel id
  induction rounds generalizing d with
  | zero => exact .refl s d
  | succ rounds ih =>
    rw [finishIn_succ]
    refine keepsWording_bind keepsWording_pending (fun ids => ?_) d
    split
    · exact .refl s
    · exact keepsWording_bind (keepsWording_forM fun id _ => hone id) fun _ => ih

/-- A whole pass keeps the wording. -/
theorem keepsWording_pass (root : SchemaNode) : ∀ d, KeepsWording s d (outcome (pass s root) d).2 := by
  refine keepsWording_bind ?_ fun _ => keepsWording_bind (.refl s) keepsWording_finishIn
  refine keepsWording_bind (keepsWording_declare root) fun id => keepsWording_bind (.refl s) fun fuel => ?_
  exact keepsWording_bind (keepsWording_fill fuel id) fun _ => .refl s

end Filling

end

end Drafting

end SchemaAccessors
