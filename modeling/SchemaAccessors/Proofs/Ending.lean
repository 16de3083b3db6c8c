import SchemaAccessors.Proofs.Bounds
import SchemaAccessors.Proofs.FillSteps

/-!
# Steps that come to an end by themselves

Declaring a type and writing a member come to an end in any state, and so does finding what the properties and
items of a node stand for, where the loader answers for finitely many URIs. Only filling, which calls itself, and
the rounds in which the rest is filled have bounds that depend on the state.
-/

namespace SchemaAccessors

namespace Drafting

/-- Steps that do not come to a bound, whatever state they are taken from. -/
def Ends {α : Type} (steps : DraftM α) : Prop :=
  ∀ d, (outcome steps d).1 ≠ .error .exhausted

variable {α β : Type} {s : Setting}

lemma ends_pure (a : α) : Ends (pure a) := fun _ => by simp

lemma ends_get : Ends get := fun _ => by simp

lemma ends_note (e : Event) : Ends (note e) := fun _ => by simp

lemma ends_update (id : DraftId) (f : Draft → Draft) : Ends (update id f) := fun _ => by simp

lemma ends_throw {e : Failure} (h : e ≠ .exhausted) : Ends (throw e : DraftM α) := fun _ => by simpa using h

lemma ends_lift {r : Except Failure α} (h : r ≠ .error .exhausted) : Ends (lift r) := fun _ => h

lemma Ends.bind {x : DraftM α} {f : α → DraftM β} (hx : Ends x) (hf : ∀ a, Ends (f a)) : Ends (x >>= f) :=
  fun d => outcome_bind_ne_error (hx d) fun a t _ => hf a t

lemma ends_draft (id : DraftId) : Ends (draft id) := by
  intro d
  rw [outcome_draft]
  cases d.drafts[id]? <;> simp

lemma ends_onStore {steps : StoreM α} (h : ∀ store, (outcome steps store).1 ≠ .error .exhausted) :
    Ends (onStore steps) := by
  intro d
  obtain ⟨trace, ht⟩ := outcome_onStore d steps
  rw [ht]
  exact h d.store

lemma ends_onModel {change : Model → Except Failure (Model × α)} (h : ∀ m, change m ≠ .error .exhausted) :
    Ends (onModel change) := by
  intro d
  rw [outcome_onModel]
  have hchange := h d.model
  cases hm : change d.model with
  | error e => simpa [hm] using hchange
  | ok r => simp

lemma attempts_ne_exhausted (s : Setting) : s.attempts ≠ .error .exhausted := by
  unfold Setting.attempts
  split <;> simp

lemma ends_nextName (name : String) : Ends (nextName name) :=
  ends_lift (mapError_ne_error fun _ => Failure.noConfusion)

lemma ends_declareType (n : SchemaNode) (doc : String) (c : Container) (attempts left : Nat) (name : String) :
    Ends (declareType n doc c attempts left name) := by
  induction left generalizing name with
  | zero => exact ends_throw Failure.noConfusion
  | succ left ih =>
    unfold declareType
    refine ends_get.bind fun d => ?_
    refine (ends_lift (mapError_ne_error fun _ => Failure.noConfusion)).bind fun found => ?_
    split
    · exact ends_throw Failure.noConfusion
    · split
      · exact Ends.bind (fun d => by simp) fun _ => ends_pure _
      · exact (ends_note _).bind fun _ => (ends_nextName _).bind ih

lemma ends_create (n : SchemaNode) : Ends (create n) := by
  intro d
  cases hl : d.registry.lookup n.uri with
  | none =>
    rw [outcome_create_of_fresh d hl]
    simp
  | some id? =>
    rw [outcome_create_of_taken d (by rw [hl]; rfl)]
    simp

variable (hfinite : {uri | ∃ document, s.loader.fetch uri = .ok document}.Finite)

include hfinite in
lemma ends_needsType (n : SchemaNode) (raw : RawKind) : Ends (needsType s n raw) := by
  cases raw with
  | object => exact (ends_onStore (Store.properties_ne_exhausted hfinite n)).bind fun _ => ends_pure _
  | _ => exact ends_pure _

include hfinite in
lemma ends_declareIn {n : SchemaNode} {container : DraftM Container} (hcontainer : Ends container) :
    Ends (declareIn s n container) := by
  unfold declareIn
  refine Ends.bind (fun _ => by simp) fun found => ?_
  split
  · exact ends_pure _
  refine (ends_create n).bind fun id => ?_
  refine (ends_needsType hfinite n _).bind fun needed => ?_
  dsimp only
  split
  · refine hcontainer.bind fun c => (ends_lift (attempts_ne_exhausted s)).bind fun attempts => ?_
    refine (ends_declareType n _ c attempts attempts _).bind fun type => ?_
    refine (ends_update id _).bind fun _ => ends_get.bind fun d => ?_
    exact (ends_note _).bind fun _ => ends_pure _
  · exact (ends_note _).bind fun _ => ends_pure _

include hfinite in
/-- Declaring comes to an end: it goes from a node to what the node is written in. -/
theorem ends_declare (n : SchemaNode) : Ends (declare s n) := by
  induction n with
  | root site => exact ends_declareIn hfinite (ends_pure _)
  | inside parent site ih =>
    exact ends_declareIn hfinite (ih.bind fun id => (ends_draft id).bind fun outer => ends_pure _)

lemma ends_addMethod (type : TypeId) (method : Method) : Ends (addMethod type method) := by
  refine ends_onModel fun m => bind_ne_error ?_ fun _ => by simp [pure, Except.pure]
  unfold Model.addMethod
  split <;> simp

lemma ends_writeScaffold (type : TypeId) (raw : RawKind) : Ends (writeScaffold type raw) := by
  intro d
  rw [outcome_writeScaffold]
  split
  · simp
  · exact ends_addMethod _ _ _

lemma ends_freeSuffix (type : TypeId) (stems : List String) (left : Nat) (suffix : String) :
    Ends (freeSuffix type stems left suffix) := by
  induction left generalizing suffix with
  | zero => exact ends_get.bind fun d => ends_throw Failure.noConfusion
  | succ left ih =>
    unfold freeSuffix
    refine ends_get.bind fun d => ?_
    dsimp only
    split
    · exact (ends_note _).bind fun _ => (ends_nextName _).bind ih
    · exact ends_pure _

lemma ends_writeProperty (type : TypeId) (raw : RawKind) (key : String) (required : Bool) (default? : Option Json)
    (x : Draft) : Ends (writeProperty s type raw key required default? x) := by
  unfold writeProperty
  refine (ends_lift (attempts_ne_exhausted s)).bind fun attempts => ?_
  refine (ends_freeSuffix _ _ _ _).bind fun suffix => (ends_addMethod _ _).bind fun _ => ?_
  split
  · exact ends_addMethod _ _
  · exact ends_pure _

lemma ends_writeItem (type : TypeId) (raw : RawKind) (default? : Option Json) (x : Draft) :
    Ends (writeItem s type raw default? x) := by
  unfold writeItem
  refine ends_get.bind fun d => (ends_lift (attempts_ne_exhausted s)).bind fun attempts => ?_
  exact (ends_freeSuffix _ _ _ _).bind fun suffix => ends_addMethod _ _

lemma ends_skip (entry : MalformedEntry) : Ends (skip s entry) := by
  unfold skip
  split
  · exact ends_throw Failure.noConfusion
  · exact ends_note _

lemma ends_fillSize (type : TypeId) (x : Draft) : Ends (fillSize type x) := by
  unfold fillSize
  split
  · exact ends_addMethod _ _
  · exact ends_pure _

end Drafting

end SchemaAccessors
