import SchemaAccessors.Draft.Fill
import SchemaAccessors.Proofs.Documents
import SchemaAccessors.Proofs.Spelling

/-!
# The changes that drafting makes

Whatever is asked of a pass, its state changes in a few ways only: an event is recorded, documents are read, a
draft is created, the type of a draft is declared, a draft is marked as started, or a type is given members.
`Step` lists these with the conditions that each is made under. Every invariant of drafting is derived from this
list, and holds therefore after calls that fail as well.
-/

namespace SchemaAccessors

/-! ## Lists of which one member is changed -/

lemma prefix_modify {α : Type} {xs ys : List α} (h : xs <+: ys) (f : α → α) : xs <+: ys.modify xs.length f := by
  induction xs generalizing ys with
  | nil => exact ⟨_, rfl⟩
  | cons x xs ih =>
    obtain ⟨rest, rfl⟩ := h
    simpa using ih (List.prefix_append xs rest)

lemma getElem?_of_modify {α : Type} {xs : List α} {i j : Nat} {f : α → α} {y : α}
    (h : (xs.modify i f)[j]? = some y) : ∃ x, xs[j]? = some x ∧ y = if i = j then f x else x := by
  rw [List.getElem?_modify] at h
  obtain ⟨x, hx, rfl⟩ := Option.map_eq_some_iff.1 h
  refine ⟨x, hx, ?_⟩
  split <;> rfl

namespace Drafting

/-! ## The elementary steps of drafting -/

section Elementary

variable {α : Type} (d : Drafting)

@[simp] lemma outcome_note (e : Event) :
    outcome (note e) d = (.ok (), { d with trace := d.trace.push e }) := rfl

@[simp] lemma outcome_lift (r : Except Failure α) : outcome (lift r) d = (r, d) := rfl

@[simp] lemma outcome_lookup (uri : String) :
    outcome (lookup uri) d = (.ok (d.registry.lookup uri).join, d) := rfl

@[simp] lemma outcome_update (id : DraftId) (f : Draft → Draft) :
    outcome (update id f) d = (.ok (), { d with drafts := d.drafts.modify id f }) := rfl

lemma outcome_draft (id : DraftId) :
    outcome (draft id) d = (d.drafts[id]?.elim (.error .noDraft) .ok, d) := by
  unfold draft
  rw [outcome_bind_of_ok (outcome_get d)]
  cases d.drafts[id]? <;> rfl

lemma outcome_draft_of_some {id : DraftId} {x : Draft} (h : d.drafts[id]? = some x) :
    outcome (draft id) d = (.ok x, d) := by
  rw [outcome_draft, h]
  rfl

lemma of_draft_eq_ok {d d' : Drafting} {id : DraftId} {x : Draft} (h : outcome (draft id) d = (.ok x, d')) :
    d.drafts[id]? = some x ∧ d' = d := by
  rw [outcome_draft] at h
  cases hx : d.drafts[id]? with
  | none => simp [hx] at h
  | some y =>
    obtain ⟨rfl, rfl⟩ : y = x ∧ d = d' := by
      simpa [hx] using h
    exact ⟨rfl, rfl⟩

/-- Steps on the store leave the rest of the state alone, but for the record of what was loaded. -/
lemma outcome_onStore (steps : StoreM α) :
    ∃ trace, outcome (onStore steps) d =
      ((outcome steps d.store).1, { d with store := (outcome steps d.store).2, trace }) :=
  ⟨_, rfl⟩

lemma of_onStore_eq_ok {steps : StoreM α} {d d' : Drafting} {a : α}
    (h : outcome (onStore steps) d = (.ok a, d')) :
    ∃ store trace, outcome steps d.store = (.ok a, store) ∧ d' = { d with store, trace } := by
  obtain ⟨trace, ht⟩ := outcome_onStore d steps
  rw [ht] at h
  obtain ⟨h1, h2⟩ := Prod.mk.injEq .. ▸ h
  exact ⟨_, trace, Prod.ext h1 rfl, h2.symm⟩

lemma outcome_onModel (change : Model → Except Failure (Model × α)) :
    outcome (onModel change) d =
      match change d.model with
      | .ok (model, a) => (.ok a, { d with model })
      | .error e => (.error e, d) := by
  unfold onModel
  rw [outcome_bind_of_ok (outcome_get d)]
  cases change d.model <;> rfl

lemma outcome_register_of_fresh {uri : String} (id? : Option DraftId) (h : d.registry.lookup uri = none) :
    outcome (register uri id?) d = (.ok (), { d with registry := d.registry ++ [(uri, id?)] }) := by
  unfold register
  rw [outcome_bind_of_ok (outcome_get d), h]
  rfl

lemma outcome_register_of_taken {uri : String} (id? : Option DraftId) (h : (d.registry.lookup uri).isSome) :
    outcome (register uri id?) d = (.error (.alreadyRegistered uri), d) := by
  unfold register
  rw [outcome_bind_of_ok (outcome_get d), if_pos h]
  rfl

/-- The state with a new draft for a node. -/
def withDraft (n : SchemaNode) : Drafting :=
  { d with
    registry := d.registry ++ [(n.uri, some d.drafts.length)]
    drafts := d.drafts ++ [{ node := n, raw := .ofKinds n.kinds }] }

lemma outcome_create_of_fresh {n : SchemaNode} (h : d.registry.lookup n.uri = none) :
    outcome (create n) d = (.ok d.drafts.length, d.withDraft n) := by
  unfold create
  rw [outcome_bind_of_ok (outcome_get d), outcome_bind_of_ok (outcome_register_of_fresh d _ h)]
  rfl

lemma outcome_create_of_taken {n : SchemaNode} (h : (d.registry.lookup n.uri).isSome) :
    outcome (create n) d = (.error (.alreadyRegistered n.uri), d) := by
  unfold create
  rw [outcome_bind_of_ok (outcome_get d), outcome_bind_of_error (outcome_register_of_taken d _ h)]

end Elementary

end Drafting

lemma Model.declare_of_free {m : Model} {c : Container} {name : String} (doc : String)
    (h : m.find? c name = none) :
    m.declare c name doc =
      .ok ({ m with types := m.types ++ [{ name, container := c, doc }] }, m.types.length) := by
  rw [Model.declare, h]
  rfl

lemma Model.declare_of_taken {m : Model} {c : Container} {name : String} {id : TypeId} (doc : String)
    (h : m.find? c name = some id) : m.declare c name doc = .error (.typeExists name) := by
  rw [Model.declare, h]
  rfl

namespace Drafting

/-! ## The list of changes -/

/-- The state with a type declared for a draft. -/
def withType (d : Drafting) (id : DraftId) (c : Container) (name doc : String) : Drafting :=
  { d with
    model := { d.model with types := d.model.types ++ [{ name, container := c, doc }] }
    drafts := d.drafts.modify id fun x => { x with wrapper? := some d.model.types.length } }

/-- Where the type of a draft may be declared: in the namespace of the pass, or inside the type of a draft. -/
def Admits (s : Setting) (d : Drafting) (c : Container) : Prop :=
  c = .top s.namespaceIndex ∨ ∃ x ∈ d.drafts, ∃ t, x.wrapper? = some t ∧ c = .inside t

/-- The state with a type changed. -/
def withChange (d : Drafting) (type : TypeId) (f : WrapperType → WrapperType) : Drafting :=
  { d with model := d.model.update type f }

/-- The state with a draft marked as started. -/
def withStarted (d : Drafting) (id : DraftId) : Drafting :=
  { d with drafts := d.drafts.modify id fun x => { x with started := true } }

/-- One change. -/
inductive Step (s : Setting) : Drafting → Drafting → Prop
  | record {d : Drafting} (trace : Trace) : Step s d { d with trace }
  | read {d : Drafting} {store : Store} (reads : d.store.Reads s.loader store) : Step s d { d with store }
  | create {d : Drafting} {n : SchemaNode} (fresh : d.registry.lookup n.uri = none) : Step s d (d.withDraft n)
  | declare {d : Drafting} {id : DraftId} {x : Draft} {c : Container} {name : String} (doc : String)
      (found : d.drafts[id]? = some x) (undeclared : x.wrapper? = none) (admitted : d.Admits s c)
      (spelled : Naming.isTypeName name = true) (free : d.model.isUnavailable c name = false)
      (single : d.model.find? c name = none) : Step s d (d.withType id c name doc)
  | start {d : Drafting} {id : DraftId} {x : Draft} (found : d.drafts[id]? = some x)
      (unstarted : x.started = false) : Step s d (d.withStarted id)
  | extend {d : Drafting} {type : TypeId} {f : WrapperType → WrapperType}
      (same : ∀ t, (f t).name = t.name ∧ (f t).container = t.container) :
      Step s d (d.withChange type f)

/-- Any number of changes. -/
abbrev Steps (s : Setting) : Drafting → Drafting → Prop :=
  Relation.ReflTransGen (Step s)

/-- Steps of drafting that come to changes of the list only, whether they succeed or not. -/
def Leads {α : Type} (s : Setting) (steps : DraftM α) : Prop :=
  ∀ d, Steps s d (outcome steps d).2

section Leads

variable {α β : Type} {s : Setting}

lemma Leads.steps {x : DraftM α} (h : Leads s x) {d d' : Drafting} {r : Except Failure α}
    (hx : outcome x d = (r, d')) : Steps s d d' :=
  outcome_leads (h d) hx

lemma leads_pure (a : α) : Leads s (pure a) := fun _ => .refl

lemma leads_throw (e : Failure) : Leads s (throw e : DraftM α) := fun _ => .refl

lemma leads_get : Leads s get := fun _ => .refl

lemma leads_lift (r : Except Failure α) : Leads s (lift r) := fun _ => .refl

lemma leads_note (e : Event) : Leads s (note e) := fun _ => .single (.record _)

lemma Leads.bind {x : DraftM α} {f : α → DraftM β} (hx : Leads s x) (hf : ∀ a, Leads s (f a)) :
    Leads s (x >>= f) := fun d =>
  outcome_bind_leads .trans (hx d) fun a t _ => hf a t

lemma leads_forM {f : α → DraftM PUnit} {xs : List α} (hf : ∀ a ∈ xs, Leads s (f a)) :
    Leads s (xs.forM f) := fun d =>
  outcome_forM_leads (fun _ => .refl) .trans xs hf d

lemma leads_draft (id : DraftId) : Leads s (draft id) := by
  intro d
  rw [outcome_draft]

lemma leads_onStore {steps : StoreM α} (h : ∀ store, Store.Reads s.loader store (outcome steps store).2) :
    Leads s (onStore steps) := by
  intro d
  obtain ⟨trace, ht⟩ := outcome_onStore d steps
  rw [ht]
  exact .tail (.single (.read (h d.store))) (.record trace)

lemma leads_bound : Leads s (bound s) := fun _ => .refl

end Leads

/-! ## Declaring

A declaration adds drafts and types behind those that are there. -/

/-- The first free name is free. -/
lemma not_taken_of_firstFree? {taken : String → Bool} {attempts : Nat} {name found : String}
    (h : firstFree? taken attempts name = .ok (some found)) : taken found = false := by
  induction attempts generalizing name with
  | zero => simp [firstFree?] at h
  | succ attempts ih =>
    unfold firstFree? at h
    split at h
    · cases hn : Naming.next name with
      | error o => simp [hn, bind, Except.bind] at h
      | ok next =>
        simp only [hn, bind, Except.bind] at h
        exact ih h
    · next hfree =>
      obtain rfl : name = found := by
        simpa [pure, Except.pure] using h
      simpa using hfree

lemma isTypeName_of_firstFree? {taken : String → Bool} {attempts : Nat} {name found : String}
    (h : firstFree? taken attempts name = .ok (some found)) (hname : Naming.isTypeName name = true) :
    Naming.isTypeName found = true := by
  induction attempts generalizing name with
  | zero => simp [firstFree?] at h
  | succ attempts ih =>
    unfold firstFree? at h
    split at h
    · cases hn : Naming.next name with
      | error o => simp [hn, bind, Except.bind] at h
      | ok next =>
        simp only [hn, bind, Except.bind] at h
        exact ih h (Naming.isTypeName_of_next hname hn)
    · obtain rfl : name = found := by
        simpa [pure, Except.pure] using h
      exact hname

/-- What a search for the name of a type comes to: a failure that changes nothing, or a new type under a name
that is spelled like one and free. -/
def Named (d : Drafting) (c : Container) (doc : String) (r : Except Failure TypeId × Drafting) : Prop :=
  (∃ e trace, r = (.error e, { d with trace })) ∨
    ∃ name trace, Naming.isTypeName name = true ∧ d.model.isUnavailable c name = false ∧
      d.model.find? c name = none ∧ r = (.ok d.model.types.length,
        { d with model := { d.model with types := d.model.types ++ [{ name, container := c, doc }] }, trace })

lemma Named.of_trace {d : Drafting} {trace : Trace} {c : Container} {doc : String}
    {r : Except Failure TypeId × Drafting} (h : Named { d with trace } c doc r) : Named d c doc r := h

lemma named_declareType (n : SchemaNode) (doc : String) (c : Container) (attempts left : Nat) {name : String}
    (hname : Naming.isTypeName name = true) (d : Drafting) :
    Named d c doc (outcome (declareType n doc c attempts left name) d) := by
  induction left generalizing name d with
  | zero => exact .inl ⟨_, _, rfl⟩
  | succ left ih =>
    unfold declareType
    rw [outcome_bind_of_ok (outcome_get d)]
    dsimp only
    cases hfirst : firstFree? (d.model.isUnavailable c) attempts name with
    | error o => exact .inl ⟨_, _, rfl⟩
    | ok found =>
      rw [Except.mapError, outcome_bind_of_ok (outcome_lift d _)]
      cases found with
      | none => exact .inl ⟨_, _, rfl⟩
      | some name' =>
        dsimp only
        have hspelled := isTypeName_of_firstFree? hfirst hname
        cases htaken : d.model.find? c name' with
        | none =>
          rw [Model.declare_of_free _ htaken]
          exact .inr ⟨name', _, hspelled, not_taken_of_firstFree? hfirst, htaken, rfl⟩
        | some sibling =>
          rw [Model.declare_of_taken _ htaken]
          dsimp only
          rw [outcome_bind_of_ok (outcome_note d _)]
          cases hnext : Naming.next name' with
          | error o => exact .inl ⟨_, _, by rw [nextName, hnext]; rfl⟩
          | ok next =>
            have hlift : nextName name' = lift (.ok next) := by rw [nextName, hnext]; rfl
            rw [hlift, outcome_bind_of_ok (outcome_lift _ _)]
            exact (ih (Naming.isTypeName_of_next hspelled hnext) _).of_trace

/-- Whether a node gets a type is found by reading. -/
lemma outcome_needsType (s : Setting) (n : SchemaNode) (raw : RawKind) (d : Drafting) :
    ∃ store trace, d.store.Reads s.loader store ∧
      (outcome (needsType s n raw) d).2 = { d with store, trace } := by
  cases raw with
  | object =>
    obtain ⟨trace, ht⟩ := outcome_onStore d (Store.properties s.loader n)
    refine ⟨_, trace, Store.reads_properties s.loader n d.store, ?_⟩
    simp only [needsType]
    rcases hr : (outcome (Store.properties s.loader n) d.store).1 with e | found <;> rw [hr] at ht
    · rw [outcome_bind_of_error ht]
    · rw [outcome_bind_of_ok ht]
      rfl
  | _ => exact ⟨d.store, d.trace, .refl, rfl⟩

/-- Changes that leave the drafts and types of before as they are, and start no draft. -/
structure Adds (s : Setting) (d d' : Drafting) : Prop where
  steps : Steps s d d'
  drafts : d.drafts <+: d'.drafts
  idle : ∀ ⦃j : DraftId⦄ ⦃x : Draft⦄, d'.drafts[j]? = some x → x.started = true → d.drafts[j]? = some x
  types : d.model.types <+: d'.model.types

lemma Adds.refl {s : Setting} (d : Drafting) : Adds s d d where
  steps := .refl
  drafts := List.prefix_refl _
  idle _ _ hx _ := hx
  types := List.prefix_refl _

lemma Adds.trans {s : Setting} {d d' d'' : Drafting} (h : Adds s d d') (h' : Adds s d' d'') : Adds s d d'' where
  steps := h.steps.trans h'.steps
  drafts := h.drafts.trans h'.drafts
  idle j x hx hs := by
    have hbefore := h'.idle hx hs
    exact h.idle hbefore hs
  types := h.types.trans h'.types

lemma Adds.of_steps {s : Setting} {d d' : Drafting} (h : Steps s d d') (hdrafts : d'.drafts = d.drafts)
    (htypes : d'.model.types = d.model.types) : Adds s d d' where
  steps := h
  drafts := by simp [hdrafts]
  idle j x hx _ := by rwa [hdrafts] at hx
  types := by simp [htypes]

/-- The part of a declaration that comes after the draft was made. -/
def giveType (s : Setting) (n : SchemaNode) (container : DraftM Container) (id : DraftId) : DraftM DraftId := do
  if ← needsType s n (.ofKinds n.kinds) then
    let c ← container
    let attempts ← lift s.attempts
    let type ← declareType n (documentation s n) c attempts attempts (Naming.typeName n.uri)
    update id fun d => { d with wrapper? := some type }
    note (.declared ((← get).model.qualifiedName type) n.uri)
  else
    note (.untyped n.uri (.ofKinds n.kinds))
  return id

section DeclareIn

variable {s : Setting} {n : SchemaNode} {container : DraftM Container} {d : Drafting}

lemma outcome_declareIn_of_found {id : DraftId} (h : d.registry.lookup n.uri = some (some id)) :
    outcome (declareIn s n container) d = (.ok id, d) := by
  unfold declareIn
  rw [outcome_bind_of_ok (outcome_lookup d _), h]
  rfl

lemma outcome_declareIn_of_reserved (h : d.registry.lookup n.uri = some none) :
    outcome (declareIn s n container) d = (.error (.alreadyRegistered n.uri), d) := by
  unfold declareIn
  rw [outcome_bind_of_ok (outcome_lookup d _), h]
  exact outcome_bind_of_error (outcome_create_of_taken d (by rw [h]; rfl))

lemma outcome_declareIn_of_fresh (h : d.registry.lookup n.uri = none) :
    outcome (declareIn s n container) d = outcome (giveType s n container d.drafts.length) (d.withDraft n) := by
  unfold declareIn
  rw [outcome_bind_of_ok (outcome_lookup d _), h]
  exact outcome_bind_of_ok (outcome_create_of_fresh d h)

/-- What the second part of a declaration comes to. -/
inductive Given (s : Setting) (n : SchemaNode) (container : DraftM Container) (id : DraftId) (d : Drafting) :
    Except Failure DraftId × Drafting → Prop
  | unread {e : Failure} {d' : Drafting}
      (asked : outcome (needsType s n (.ofKinds n.kinds)) d = (.error e, d')) :
      Given s n container id d (.error e, d')
  | untyped {d' : Drafting} {trace : Trace}
      (asked : outcome (needsType s n (.ofKinds n.kinds)) d = (.ok false, d')) :
      Given s n container id d (.ok id, { d' with trace })
  | unnamed {e : Failure} {d' : Drafting} {trace : Trace}
      (asked : outcome (needsType s n (.ofKinds n.kinds)) d = (.ok true, d')) :
      Given s n container id d (.error e, { (outcome container d').2 with trace })
  | typed {d' d'' : Drafting} {c : Container} {name : String} {trace : Trace}
      (asked : outcome (needsType s n (.ofKinds n.kinds)) d = (.ok true, d'))
      (contained : outcome container d' = (.ok c, d'')) (spelled : Naming.isTypeName name = true)
      (free : d''.model.isUnavailable c name = false) (single : d''.model.find? c name = none) :
      Given s n container id d (.ok id, { d''.withType id c name (documentation s n) with trace })

lemma given_giveType (s : Setting) (n : SchemaNode) (container : DraftM Container) (id : DraftId) (d : Drafting) :
    Given s n container id d (outcome (giveType s n container id) d) := by
  unfold giveType
  rcases hasked : outcome (needsType s n (.ofKinds n.kinds)) d with ⟨e | needed, d'⟩
  · rw [outcome_bind_of_error hasked]
    exact .unread hasked
  rw [outcome_bind_of_ok hasked]
  cases needed with
  | false => exact .untyped hasked
  | true =>
    rw [if_pos rfl]
    have failed (e : Failure) (trace : Trace) :
        Given s n container id d (.error e, { (outcome container d').2 with trace }) := .unnamed hasked
    rcases hc : outcome container d' with ⟨e | c, d''⟩ <;> rw [hc] at failed
    · rw [outcome_bind_of_error hc]
      exact failed e d''.trace
    rw [outcome_bind_of_ok hc]
    cases s.attempts with
    | error e => exact failed e d''.trace
    | ok attempts =>
      rw [outcome_bind_of_ok (outcome_lift d'' _)]
      have hname : Naming.isTypeName (Naming.typeName n.uri) = true := Naming.isTypeName_typeName n.uri
      rcases named_declareType n (documentation s n) c attempts attempts hname d'' with
        ⟨e, trace, h⟩ | ⟨name, trace, hspelled, hfree, hsingle, h⟩
      · rw [outcome_bind_of_error h]
        exact failed e trace
      · rw [outcome_bind_of_ok h]
        exact .typed hasked hc hspelled hfree hsingle

lemma withDraft_adds (h : d.registry.lookup n.uri = none) : Adds s d (d.withDraft n) := by
  refine ⟨.single (.create h), List.prefix_append _ _, fun j x hx hs => ?_, List.prefix_refl _⟩
  simp only [withDraft, List.getElem?_append] at hx
  split at hx
  · exact hx
  · rw [List.mem_singleton.1 (List.mem_of_getElem? hx)] at hs
    simp at hs

lemma adds_needsType (raw : RawKind) : Adds s d (outcome (needsType s n raw) d).2 := by
  obtain ⟨store, trace, hreads, h⟩ := outcome_needsType s n raw d
  rw [h]
  exact .of_steps (.tail (.single (.read hreads)) (.record trace)) rfl rfl

lemma adds_trace (trace : Trace) : Adds s d { d with trace } :=
  .of_steps (.single (.record trace)) rfl rfl

/-- A type that is declared for a draft `id` behind the drafts of `d` leaves the drafts and types of `d` alone. -/
lemma Adds.withType {d' : Drafting} {x : Draft} {c : Container} {name : String} (h : Adds s d d') (doc : String)
    (hx : d'.drafts[d.drafts.length]? = some x) (hundeclared : x.wrapper? = none) (hadmitted : d'.Admits s c)
    (hspelled : Naming.isTypeName name = true) (hfree : d'.model.isUnavailable c name = false)
    (hsingle : d'.model.find? c name = none) :
    Adds s d (d'.withType d.drafts.length c name doc) := by
  refine ⟨h.steps.tail (.declare doc hx hundeclared hadmitted hspelled hfree hsingle), prefix_modify h.drafts _,
    fun j y hy hs => ?_, h.types.trans (List.prefix_append _ _)⟩
  obtain ⟨z, hz, rfl⟩ := getElem?_of_modify hy
  by_cases hj : d.drafts.length = j
  · rw [if_pos hj] at hs
    have hold := h.idle hz hs
    rw [List.getElem?_eq_none (by omega)] at hold
    simp at hold
  · rw [if_neg hj] at hs ⊢
    exact h.idle hz hs

lemma adds_declareIn (hadds : ∀ d, Adds s d (outcome container d).2)
    (hadmits : ∀ d c d', outcome container d = (.ok c, d') → d'.Admits s c) :
    Adds s d (outcome (declareIn s n container) d).2 := by
  cases hl : d.registry.lookup n.uri with
  | some id? =>
    cases id? with
    | none =>
      rw [outcome_declareIn_of_reserved hl]
      exact .refl d
    | some id =>
      rw [outcome_declareIn_of_found hl]
      exact .refl d
  | none =>
    rw [outcome_declareIn_of_fresh hl]
    have hnew := withDraft_adds (s := s) hl
    have hasked := adds_needsType (s := s) (n := n) (d := d.withDraft n) (.ofKinds n.kinds)
    have hgiven := given_giveType s n container d.drafts.length (d.withDraft n)
    generalize outcome (giveType s n container d.drafts.length) (d.withDraft n) = r at hgiven ⊢
    cases hgiven with
    | unread asked => exact hnew.trans (by rwa [asked] at hasked)
    | untyped asked => exact (hnew.trans (by rwa [asked] at hasked)).trans (adds_trace _)
    | @unnamed e d' trace asked =>
      rw [asked] at hasked
      exact ((hnew.trans hasked).trans (hadds d')).trans (adds_trace trace)
    | @typed d' d'' c name trace asked contained spelled free single =>
      rw [asked] at hasked
      have hcontained := hadds d'
      rw [contained] at hcontained
      have hx : d''.drafts[d.drafts.length]? = some { node := n, raw := .ofKinds n.kinds } := by
        obtain ⟨rest, hrest⟩ := (hasked.trans hcontained).drafts
        rw [← hrest, withDraft]
        simp
      have htyped := ((hnew.trans hasked).trans hcontained).withType (documentation s n) hx rfl
        (hadmits d' c d'' contained) spelled free single
      exact htyped.trans (adds_trace trace)

end DeclareIn

/-- Where the type of a node is declared that is written in another. -/
def containerIn (s : Setting) (parent : SchemaNode) : DraftM Container := do
  let outer ← draft (← declare s parent)
  return match outer.wrapper? with
    | some type => .inside type
    | none => .top s.namespaceIndex

/-- Where the type of a node is declared. -/
def containerOf (s : Setting) : SchemaNode → DraftM Container
  | .root _ => pure (.top s.namespaceIndex)
  | .inside parent _ => containerIn s parent

lemma admits_of_containerOf {s : Setting} {n : SchemaNode} {d d' : Drafting} {c : Container}
    (h : outcome (containerOf s n) d = (.ok c, d')) : d'.Admits s c := by
  cases n with
  | root site =>
    obtain ⟨rfl, rfl⟩ : .top s.namespaceIndex = c ∧ d = d' := by
      simpa [containerOf] using h
    exact .inl rfl
  | inside parent site =>
    obtain ⟨id, t, -, hrest⟩ := outcome_bind_eq_ok h
    obtain ⟨x, u, hdraft, hlast⟩ := outcome_bind_eq_ok hrest
    obtain ⟨hx, rfl⟩ := of_draft_eq_ok hdraft
    cases hw : x.wrapper? with
    | none =>
      obtain ⟨rfl, rfl⟩ : .top s.namespaceIndex = c ∧ u = d' := by
        simpa [hw] using hlast
      exact .inl rfl
    | some type =>
      obtain ⟨rfl, rfl⟩ : .inside type = c ∧ u = d' := by
        simpa [hw] using hlast
      exact .inr ⟨x, List.mem_of_getElem? hx, type, hw, rfl⟩

lemma adds_containerIn {s : Setting} {parent : SchemaNode} (h : ∀ d, Adds s d (outcome (declare s parent) d).2)
    (d : Drafting) : Adds s d (outcome (containerIn s parent) d).2 := by
  refine outcome_bind_leads .trans (h d) fun id t _ => ?_
  refine outcome_bind_leads .trans ?_ fun x u _ => .refl u
  rw [outcome_draft]
  exact .refl t

/-- A declaration leaves the drafts and types that there are alone, whether it succeeds or not. -/
theorem adds_declare (s : Setting) (n : SchemaNode) (d : Drafting) : Adds s d (outcome (declare s n) d).2 := by
  induction n generalizing d with
  | root site =>
    exact adds_declareIn (fun d => .refl d) fun d c d' => admits_of_containerOf (n := .root site)
  | inside parent site ih =>
    exact adds_declareIn (adds_containerIn ih) fun d c d' => admits_of_containerOf (n := .inside parent site)

lemma leads_declare (s : Setting) (n : SchemaNode) : Leads s (declare s n) := fun d =>
  (adds_declare s n d).steps

/-! ### What declarations keep

What holds of a state behind a declaration is found without another look at how types are named: a declaration reads,
creates drafts, and declares the types of drafts that it created. -/

/-- What is kept where something is read, where a draft is created, and where the type of such a draft is declared. -/
structure LastsDeclaring (s : Setting) (P : Drafting → Prop) : Prop where
  read : ∀ ⦃d : Drafting⦄ (store : Store) (trace : Trace), P d → P { d with store, trace }
  create : ∀ ⦃d : Drafting⦄ ⦃n : SchemaNode⦄, P d → Step s d (d.withDraft n) → P (d.withDraft n)
  declare : ∀ ⦃d : Drafting⦄ ⦃n : SchemaNode⦄ ⦃id : DraftId⦄ ⦃c : Container⦄ ⦃name : String⦄, P d →
    d.drafts[id]? = some { node := n, raw := .ofKinds n.kinds } → Naming.isTypeName name = true →
    Step s d (d.withType id c name (documentation s n)) → P (d.withType id c name (documentation s n))

namespace LastsDeclaring

variable {s : Setting} {P : Drafting → Prop} (h : LastsDeclaring s P)

include h

lemma of_needsType {d : Drafting} (hd : P d) (n : SchemaNode) (raw : RawKind) :
    P (outcome (needsType s n raw) d).2 := by
  obtain ⟨store, trace, -, hasked⟩ := outcome_needsType s n raw d
  rw [hasked]
  exact h.read store trace hd

lemma of_declareIn {n : SchemaNode} {container : DraftM Container} (hadds : ∀ d, Adds s d (outcome container d).2)
    (hadmits : ∀ d c d', outcome container d = (.ok c, d') → d'.Admits s c)
    (hcontainer : ∀ d, P d → P (outcome container d).2) {d : Drafting} (hd : P d) :
    P (outcome (declareIn s n container) d).2 := by
  rcases hl : d.registry.lookup n.uri with _ | _ | id
  · rw [outcome_declareIn_of_fresh hl]
    have hnew : P (d.withDraft n) := h.create hd (.create hl)
    have hasked := adds_needsType (s := s) (n := n) (d := d.withDraft n) (.ofKinds n.kinds)
    have hread := h.of_needsType hnew n (.ofKinds n.kinds)
    have hgiven := given_giveType s n container d.drafts.length (d.withDraft n)
    generalize outcome (giveType s n container d.drafts.length) (d.withDraft n) = r at hgiven ⊢
    cases hgiven with
    | unread asked => rwa [asked] at hread
    | @untyped d' trace asked =>
      rw [asked] at hread
      exact h.read d'.store trace hread
    | @unnamed e d' trace asked =>
      rw [asked] at hread
      exact h.read (outcome container d').2.store trace (hcontainer d' hread)
    | @typed d' d'' c name trace asked contained spelled free single =>
      rw [asked] at hasked hread
      have hadded := hadds d'
      have hcontained := hcontainer d' hread
      rw [contained] at hadded hcontained
      have hx : d''.drafts[d.drafts.length]? = some { node := n, raw := .ofKinds n.kinds } := by
        obtain ⟨rest, hrest⟩ := (hasked.trans hadded).drafts
        rw [← hrest, withDraft]
        simp
      have hstep : Step s d'' (d''.withType d.drafts.length c name (documentation s n)) :=
        .declare _ hx rfl (hadmits d' c d'' contained) spelled free single
      exact h.read d''.store trace (h.declare hcontained hx spelled hstep)
  · rw [outcome_declareIn_of_reserved hl]
    exact hd
  · rw [outcome_declareIn_of_found hl]
    exact hd

/-- It is kept by a declaration, whether that succeeds or not. -/
theorem of_declare (n : SchemaNode) {d : Drafting} (hd : P d) : P (outcome (Drafting.declare s n) d).2 := by
  induction n generalizing d with
  | root site =>
    refine h.of_declareIn (fun d => .refl d) (fun d c d' => ?_) (fun d hd => ?_) hd
    · exact admits_of_containerOf (n := .root site)
    · exact hd
  | inside parent site ih =>
    refine h.of_declareIn (adds_containerIn (adds_declare s parent)) (fun d c d' => ?_) (fun d hd => ?_) hd
    · exact admits_of_containerOf (n := .inside parent site)
    · refine outcome_bind_leads (R := fun d d' => P d → P d') (fun hab hbc => hbc ∘ hab) ih (fun outer d' _ => ?_) hd
      refine outcome_bind_leads (R := fun d d' => P d → P d') (fun hab hbc => hbc ∘ hab) ?_ fun _ _ _ hd' => hd'
      rw [outcome_draft]
      exact fun hd' => hd'

end LastsDeclaring

end Drafting

end SchemaAccessors
