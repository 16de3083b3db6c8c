import SchemaAccessors.Proofs.Copying
import SchemaAccessors.Proofs.Refusals
import SchemaAccessors.Proofs.Termination

/-!
# What drafting fails of

Beyond what reading fails of, drafting fails unreported only where a name is counted up that ends in too many digits.
Everything else that could go wrong cannot be met: a pass keeps a state in which each draft that is looked for is there,
and no document was refused (`Ready`), and `Carries` says of steps that they lead from such states to such states.
-/

namespace SchemaAccessors

/-- The names that are come to from a name by counting up. -/
def Naming.Counts : String → String → Prop :=
  Relation.ReflTransGen fun name name' => next name = .ok name'

section FreeNames

variable {taken : String → Bool} {attempts : Nat} {name : String}

/-- A search for a free name fails where a name on the way has too many digits to be counted up. -/
lemma exists_of_firstFree?_eq_error {o : Number.Overlong} (h : firstFree? taken attempts name = .error o) :
    ∃ name', Naming.Counts name name' ∧ Naming.next name' = .error o := by
  induction attempts generalizing name with
  | zero => cases h
  | succ attempts ih =>
    unfold firstFree? at h
    split at h
    · rcases bind_eq_error.1 h with hnext | ⟨next, hnext, hrest⟩
      · exact ⟨name, .refl, hnext⟩
      · obtain ⟨name', hcounts, hfails⟩ := ih hrest
        exact ⟨name', .head hnext hcounts, hfails⟩
    · cases h

lemma counts_of_firstFree? {found : String} (h : firstFree? taken attempts name = .ok (some found)) :
    Naming.Counts name found := by
  induction attempts generalizing name with
  | zero => cases h
  | succ attempts ih =>
    unfold firstFree? at h
    split at h
    · obtain ⟨next, hnext, hrest⟩ := bind_eq_ok.1 h
      exact .head hnext (ih hrest)
    · cases h
      exact .refl

end FreeNames

lemma Store.HasText.mono {loader : Loader} {s t : Store} {text : String} (h : s.HasText text)
    (hreads : s.Reads loader t) : t.HasText text := by
  obtain ⟨n, hn, htext⟩ := h
  exact ⟨n, hreads.nodes_subset hn, htext⟩

namespace Drafting

/-- The names that counting up begins with: for the URI of a node, for a key in a node, or that of a type. -/
inductive Origin (d : Drafting) : String → Prop
  | uri {n : SchemaNode} (held : n ∈ d.store.nodes) : Origin d (Naming.typeName n.uri)
  | key {key : String} (copied : d.store.HasText key) : Origin d (Naming.identifier key)
  | type (id : TypeId) : Origin d (d.model.nameOf id)

/-- A name with too many digits to be counted up was come to by counting up. -/
inductive Overcounts (d : Drafting) (o : Number.Overlong) : Prop
  | intro {start name : String} (origin : d.Origin start) (counted : Naming.Counts start name)
      (overlong : Naming.next name = .error o)

/-- What drafting may fail of. -/
inductive MayFail (s : Setting) (e : Failure) (d : Drafting) : Prop
  | reading (h : Store.MayFail s.loader e d.store)
  | counting {o : Number.Overlong} (h : d.Overcounts o) (he : e = .overlong o)

lemma MayFail.reported {s : Setting} {e : Failure} {d : Drafting} (h : e.isReported = true) : MayFail s e d :=
  .reading (.reported h)

/-- A state that a pass can go on from. -/
structure Ready (d : Drafting) : Prop where
  sound : d.Sound
  seated : d.Seated
  intact : d.store.Intact

/-! ## What single steps fail of -/

lemma ensures_onStore {α : Type} {d : Drafting} {steps : StoreM α} {Q : α → Store → Prop}
    {E : Failure → Store → Prop} (h : Ensures steps d.store Q E) :
    Ensures (onStore steps) d (fun a d' => ∃ store trace, Q a store ∧ d' = { d with store, trace })
      fun e d' => E e d'.store := by
  obtain ⟨trace, ht⟩ := outcome_onStore d steps
  rcases hr : outcome steps d.store with ⟨e | a, store⟩ <;> rw [hr] at ht
  · exact ensures_of_error ht (h.fails hr)
  · exact ensures_of_ok ht ⟨store, trace, h.succeeds hr, rfl⟩

/-- Steps from a state fail of nothing else than what drafting may fail of. -/
def Excuses {α : Type} (s : Setting) (d : Drafting) (steps : DraftM α) : Prop :=
  Ensures steps d (fun _ _ => True) (MayFail s)

section Excuses

variable {α β : Type} {s : Setting} {d : Drafting} {type : TypeId}

lemma Excuses.bind {x : DraftM α} {f : α → DraftM β} (hx : Excuses s d x)
    (hf : ∀ a d', outcome x d = (.ok a, d') → Excuses s d' (f a)) : Excuses s d (x >>= f) :=
  Ensures.bind hx fun a d' hok _ => hf a d' hok

lemma excuses_pure (a : α) : Excuses s d (pure a) := ensures_pure trivial

lemma excuses_note (e : Event) : Excuses s d (note e) := ensures_of_ok (outcome_note d e) trivial

lemma excuses_throw {e : Failure} (h : e.isReported = true) : Excuses s d (throw e : DraftM α) :=
  ensures_throw (.reported h)

lemma excuses_onStore {steps : StoreM α} {Q : α → Store → Prop}
    (h : Ensures steps d.store Q (Store.MayFail s.loader)) : Excuses s d (onStore steps) :=
  ((ensures_onStore h).mono fun _ _ _ _ => trivial).excuse fun _ _ hfails => .reading hfails

lemma Origin.note {start : String} (h : d.Origin start) (e : Event) :
    Origin { d with trace := d.trace.push e } start := by
  cases h with
  | uri held => exact .uri held
  | key copied => exact .key copied
  | type id => exact .type id

lemma excuses_nextName {start name : String} (horigin : d.Origin start) (hcounts : Naming.Counts start name) :
    Excuses s d (nextName name) := by
  refine ensures_mk_pure (fun _ _ => trivial) fun e hfails => ?_
  obtain ⟨o, ho, rfl⟩ := mapError_eq_error.1 hfails
  exact .counting ⟨horigin, hcounts, ho⟩ rfl

lemma of_nextName_eq_ok {name name' : String} {d' : Drafting} (h : outcome (nextName name) d = (.ok name', d')) :
    Naming.next name = .ok name' ∧ d = d' :=
  ⟨mapError_eq_ok.1 (Prod.mk.inj h).1, (Prod.mk.inj h).2⟩

lemma excuses_declareType {n : SchemaNode} (hn : n ∈ d.store.nodes) (doc : String) (c : Container)
    (attempts left : Nat) {name : String} (hcounts : Naming.Counts (Naming.typeName n.uri) name) :
    Excuses s d (declareType n doc c attempts left name) := by
  induction left generalizing name d with
  | zero => exact excuses_throw rfl
  | succ left ih =>
    unfold declareType
    refine ensures_bind_of_ok (outcome_get d) ?_
    dsimp only
    refine Excuses.bind ?_ fun found e hfound => ?_
    · refine ensures_mk_pure (fun _ _ => trivial) fun e hfails => ?_
      obtain ⟨o, ho, rfl⟩ := mapError_eq_error.1 hfails
      obtain ⟨name', hcounts', hnext⟩ := exists_of_firstFree?_eq_error ho
      exact .counting ⟨.uri hn, hcounts.trans hcounts', hnext⟩ rfl
    obtain ⟨hfree, rfl⟩ := Prod.mk.inj hfound
    split
    · exact excuses_throw rfl
    · next free =>
      have hfreed := hcounts.trans (counts_of_firstFree? (mapError_eq_ok.1 hfree))
      split
      · exact ensures_bind_of_ok (outcome_modify _ _) (excuses_pure _)
      · refine ensures_bind_of_ok (outcome_note d _) ?_
        have hnoted := Origin.note (.uri hn) (.siblingTaken free)
        refine (excuses_nextName hnoted hfreed).bind fun name' e hok => ?_
        obtain ⟨hnext, rfl⟩ := of_nextName_eq_ok hok
        refine ih ?_ (hfreed.tail hnext)
        exact hn

lemma excuses_addMethod (method : Method) : Excuses s d (addMethod type method) := by
  cases hm : d.model.hasMember type method.name with
  | true => exact ensures_of_error (outcome_addMethod_of_taken hm) (.reported rfl)
  | false => exact ensures_of_ok (outcome_addMethod_of_free hm) trivial

lemma excuses_writeScaffold (raw : RawKind) : Excuses s d (writeScaffold type raw) := by
  refine ⟨fun _ _ _ => trivial, fun e d' hfails => ?_⟩
  rw [outcome_writeScaffold] at hfails
  split_ifs at hfails
  · rw [← Except.error.inj (Prod.mk.inj hfails).1]
    exact .reported rfl
  · exact (excuses_addMethod raw.getter).fails hfails

lemma excuses_freeSuffix (stems : List String) (left : Nat) {start suffix : String} (horigin : d.Origin start)
    (hcounts : Naming.Counts start suffix) : Excuses s d (freeSuffix type stems left suffix) := by
  induction left generalizing suffix d with
  | zero => exact ensures_bind_of_ok (outcome_get d) (excuses_throw rfl)
  | succ left ih =>
    unfold freeSuffix
    refine ensures_bind_of_ok (outcome_get d) ?_
    dsimp only
    split
    · refine ensures_bind_of_ok (outcome_note d _) ?_
      refine (excuses_nextName (horigin.note _) hcounts).bind fun suffix' e hok => ?_
      obtain ⟨hnext, rfl⟩ := of_nextName_eq_ok hok
      exact ih (horigin.note _) (hcounts.tail hnext)
    · exact excuses_pure _

lemma excuses_skip (entry : MalformedEntry) : Excuses s d (skip s entry) := by
  unfold skip
  split
  · exact excuses_throw rfl
  · exact excuses_note _

lemma excuses_fillSize (x : Draft) : Excuses s d (fillSize type x) := by
  unfold fillSize
  split
  · exact excuses_addMethod _
  · exact excuses_pure _

variable {attempts : Nat} (hattempts : s.attempts = .ok attempts)

include hattempts

lemma outcome_attempts (d : Drafting) : outcome (lift s.attempts) d = (.ok attempts, d) := by
  rw [hattempts, outcome_lift]

lemma excuses_writeProperty (raw : RawKind) {key : String} (hkey : d.store.HasText key) (required : Bool)
    (default? : Option Json) (x : Draft) : Excuses s d (writeProperty s type raw key required default? x) := by
  unfold writeProperty
  refine ensures_bind_of_ok (outcome_attempts hattempts d) ?_
  refine (excuses_freeSuffix _ _ (.key hkey) .refl).bind fun suffix _ _ => (excuses_addMethod _).bind fun _ _ _ => ?_
  split
  · exact excuses_addMethod _
  · exact excuses_pure _

lemma excuses_writeItem (raw : RawKind) (default? : Option Json) {x : Draft} (hx : x.node ∈ d.store.nodes) :
    Excuses s d (writeItem s type raw default? x) := by
  unfold writeItem
  refine ensures_bind_of_ok (outcome_get d) (ensures_bind_of_ok (outcome_attempts hattempts d) ?_)
  refine (excuses_freeSuffix _ _ ?_ .refl).bind fun suffix _ _ => excuses_addMethod _
  split
  · exact .type _
  · exact .uri hx

end Excuses

/-! ## Steps that carry on -/

/-- Steps from a state lead to one that a pass can go on from, or fail of what drafting may fail of. -/
def Carries {α : Type} (s : Setting) (d : Drafting) (steps : DraftM α) : Prop :=
  Ensures steps d (fun _ d' => d'.Ready ∧ Steps s d d') (MayFail s)

section Carries

variable {α β : Type} {s : Setting} {d d' : Drafting} {n : SchemaNode}

lemma Carries.bind {x : DraftM α} {f : α → DraftM β} (hx : Carries s d x)
    (hf : ∀ a d', outcome x d = (.ok a, d') → d'.Ready → Steps s d d' → Carries s d' (f a)) :
    Carries s d (x >>= f) :=
  Ensures.bind hx fun a d' hok h =>
    (hf a d' hok h.1 h.2).mono fun _ _ _ h' => ⟨h'.1, h.2.trans h'.2⟩

lemma Ready.carries_pure (hd : d.Ready) (a : α) : Carries s d (pure a) := ensures_pure ⟨hd, .refl⟩

lemma carries_forM {f : α → DraftM PUnit} {xs : List α} (hd : d.Ready)
    (hf : ∀ a ∈ xs, ∀ e, e.Ready → Steps s d e → Carries s e (f a)) : Carries s d (xs.forM f) := by
  refine ensures_forM (I := fun e => e.Ready ∧ Steps s d e) (fun a ha e he => ?_) ⟨hd, .refl⟩
  exact (hf a ha e he.1 he.2).mono fun _ _ _ h => ⟨h.1, he.2.trans h.2⟩

/-- Steps that only write carry on. -/
lemma Ready.carries_of_writes {steps : DraftM α} (type : TypeId) (hd : d.Ready) (hexcuses : Excuses s d steps)
    (hwrites : ∀ a d', outcome steps d = (.ok a, d') → Writes s type d d') : Carries s d steps := by
  refine ⟨fun a d' hok => ?_, hexcuses.fails⟩
  have h := hwrites a d' hok
  exact ⟨⟨h.steps.sound hd.sound, hd.seated.of_writes h, h.store ▸ hd.intact⟩, h.steps⟩

lemma Ready.carries_skip (hd : d.Ready) (entry : MalformedEntry) : Carries s d (skip s entry) := by
  refine hd.carries_of_writes 0 (excuses_skip entry) fun _ _ hok => ?_
  obtain ⟨trace, rfl⟩ := of_skip hok
  exact .of_trace trace

lemma Ready.carries_note (hd : d.Ready) (e : Event) : Carries s d (note e) :=
  hd.carries_of_writes 0 (excuses_note e) fun _ _ hok => (Prod.mk.inj hok).2 ▸ .of_trace _

lemma Ready.carries_draft (hd : d.Ready) {id : DraftId} {x : Draft} (h : d.drafts[id]? = some x) :
    Carries s d (draft id) :=
  ensures_of_ok (outcome_draft_of_some d h) ⟨hd, .refl⟩

lemma Ready.read {store : Store} (hd : d.Ready) (hreads : d.store.Reads s.loader store) (hwhole : store.Whole)
    (trace : Trace) : Ready { d with store, trace } :=
  ⟨hd.sound.read store trace, hd.seated.read hreads trace, hreads.intact hd.intact hwhole⟩

lemma Ready.carries_onStore {steps : StoreM α} (hd : d.Ready)
    (h : Ensures steps d.store (fun _ store => store.Intact) (Store.MayFail s.loader))
    (hreads : ∀ store, Store.Reads s.loader store (outcome steps store).2) : Carries s d (onStore steps) := by
  refine ⟨fun a d' hok => ?_, (excuses_onStore h).fails⟩
  have hsteps := (leads_onStore hreads).steps hok
  obtain ⟨store, trace, hread, rfl⟩ := of_onStore_eq_ok hok
  exact ⟨hd.read (outcome_leads (hreads d.store) hread) (h.succeeds hread).whole trace, hsteps⟩

/-! ### Declaring -/

lemma excuses_needsType (hd : d.Ready) (raw : RawKind) : Excuses s d (needsType s n raw) := by
  cases raw with
  | object => exact (excuses_onStore (Store.ensures_properties hd.intact n)).bind fun _ _ _ => excuses_pure _
  | _ => exact excuses_pure _

/-- Where it is found whether a node gets a type, no document was refused on the way. -/
lemma Ready.of_needsType {b : Bool} (hd : d.Ready) (hn : n ∈ d.store.nodes)
    (h : outcome (needsType s n (.ofKinds n.kinds)) d = (.ok b, d')) :
    d'.Ready ∧ d.store.Reads s.loader d'.store := by
  obtain ⟨store, trace, rfl, hreads, hwhole, -⟩ := of_needsType_eq_ok h (hd.intact.genuine.hasLoaded hn)
  exact ⟨hd.read hreads (hwhole hd.intact.whole) trace, hreads⟩

lemma Ready.withDraft (s : Setting) (hd : d.Ready) (hn : n ∈ d.store.nodes)
    (hfresh : d.registry.lookup n.uri = none) : (d.withDraft n).Ready :=
  ⟨(Step.create (s := s) hfresh).sound hd.sound, hd.seated.withDraft hn, hd.intact⟩

lemma declare_eq (n : SchemaNode) : declare s n = declareIn s n (containerOf s n) := by
  cases n <;> rfl

lemma adds_containerOf (n : SchemaNode) (d : Drafting) : Adds s d (outcome (containerOf s n) d).2 := by
  cases n with
  | root site => exact .refl d
  | inside parent site => exact adds_containerIn (adds_declare s parent) d

/-- What is declared has a draft under its URI. -/
lemma exists_of_declare {id : DraftId} (hd : d.Sound) (h : outcome (declare s n) d = (.ok id, d')) :
    ∃ x, d'.drafts[id]? = some x ∧ x.node.uri = n.uri := by
  rw [declare_eq] at h
  cases hl : d.registry.lookup n.uri with
  | some id? =>
    obtain ⟨id', x, rfl, hx, huri⟩ := hd.of_lookup hl
    rw [outcome_declareIn_of_found hl] at h
    obtain ⟨hid, rfl⟩ := Prod.mk.inj h
    exact ⟨x, Except.ok.inj hid ▸ hx, huri⟩
  | none =>
    rw [outcome_declareIn_of_fresh hl] at h
    have hself : (d.withDraft n).drafts[d.drafts.length]? = some { node := n, raw := .ofKinds n.kinds } := by
      simp [Drafting.withDraft]
    have hasked := adds_needsType (s := s) (n := n) (d := d.withDraft n) (.ofKinds n.kinds)
    have hgiven := given_giveType s n (containerOf s n) d.drafts.length (d.withDraft n)
    rw [h] at hgiven
    cases hgiven with
    | untyped asked =>
      rw [asked] at hasked
      obtain ⟨y, hy, hnode, -⟩ := hasked.steps.keepsNodes hself
      exact ⟨y, hy, congrArg SchemaNode.uri hnode⟩
    | @typed e e' c name trace asked contained spelled free single =>
      have hadded := adds_containerOf (s := s) n e
      rw [asked] at hasked
      rw [contained] at hadded
      obtain ⟨y, hy, hnode, -⟩ := (hasked.trans hadded).steps.keepsNodes hself
      have htyped : e'.KeepsNodes (e'.withType d.drafts.length c name (documentation s n)) :=
        keepsNodes_modify rfl (fun _ => rfl) fun _ hs => hs
      obtain ⟨z, hz, hnode', -⟩ := htyped hy
      exact ⟨z, hz, congrArg SchemaNode.uri (hnode'.trans hnode)⟩

lemma Ready.whole_of_declareIn {container : DraftM Container} {id : DraftId}
    (hcontainer : ∀ e c e', e.Ready → n ∈ e.store.nodes → outcome container e = (.ok c, e') → e'.store.Whole)
    (hd : d.Ready) (hn : n ∈ d.store.nodes) (h : outcome (declareIn s n container) d = (.ok id, d')) :
    d'.store.Whole := by
  cases hl : d.registry.lookup n.uri with
  | some id? =>
    obtain ⟨id', x, rfl, -⟩ := hd.sound.of_lookup hl
    rw [outcome_declareIn_of_found hl] at h
    exact (Prod.mk.inj h).2 ▸ hd.intact.whole
  | none =>
    rw [outcome_declareIn_of_fresh hl] at h
    have hnew := hd.withDraft s hn hl
    have hgiven := given_giveType s n container d.drafts.length (d.withDraft n)
    rw [h] at hgiven
    cases hgiven with
    | untyped asked => exact (hnew.of_needsType hn asked).1.intact.whole
    | typed asked contained spelled free single =>
      obtain ⟨hready, hreads⟩ := hnew.of_needsType hn asked
      have hcontained := hcontainer _ _ _ hready (hreads.nodes_subset hn) contained
      exact hcontained

lemma Ready.whole_of_declare {id : DraftId} (hd : d.Ready) (hn : n ∈ d.store.nodes)
    (h : outcome (declare s n) d = (.ok id, d')) : d'.store.Whole := by
  induction n generalizing d d' id with
  | root site =>
    exact hd.whole_of_declareIn (fun e c e' he _ hc => (Prod.mk.inj hc).2 ▸ he.intact.whole) hn h
  | inside parent site ih =>
    refine hd.whole_of_declareIn (fun e c e' he hn' hc => ?_) hn h
    obtain ⟨id, t, hparent, hrest⟩ := outcome_bind_eq_ok hc
    obtain ⟨x, u, hdraft, hlast⟩ := outcome_bind_eq_ok hrest
    obtain ⟨-, rfl⟩ := of_draft_eq_ok hdraft
    exact (Prod.mk.inj hlast).2 ▸ ih he (he.intact.genuine.parent_mem hn' rfl) hparent

section Attempts

variable {attempts : Nat} (hattempts : s.attempts = .ok attempts)

include hattempts

lemma excuses_declareIn {container : DraftM Container}
    (hcontainer : ∀ e, e.Ready → n ∈ e.store.nodes →
      Ensures container e (fun _ e' => n ∈ e'.store.nodes) (MayFail s))
    (hd : d.Ready) (hn : n ∈ d.store.nodes) : Excuses s d (declareIn s n container) := by
  cases hl : d.registry.lookup n.uri with
  | some id? =>
    obtain ⟨id, x, rfl, -⟩ := hd.sound.of_lookup hl
    exact ensures_of_ok (outcome_declareIn_of_found hl) trivial
  | none =>
    refine Ensures.of_outcome_eq (outcome_declareIn_of_fresh hl) ?_
    have hnew := hd.withDraft s hn hl
    unfold giveType
    refine (excuses_needsType hnew _).bind fun needed e hasked => ?_
    obtain ⟨hready, hreads⟩ := hnew.of_needsType hn hasked
    split
    · refine (hcontainer e hready (hreads.nodes_subset hn)).bind fun c e' _ hn' => ?_
      refine ensures_bind_of_ok (outcome_attempts hattempts e') ?_
      refine (excuses_declareType hn' _ _ _ _ .refl).bind fun type e'' _ => ?_
      refine ensures_bind_of_ok (outcome_update e'' _ _) (ensures_bind_of_ok (outcome_get _) ?_)
      exact (excuses_note _).bind fun _ _ _ => excuses_pure _
    · exact (excuses_note _).bind fun _ _ _ => excuses_pure _

lemma excuses_declare (hd : d.Ready) (hn : n ∈ d.store.nodes) : Excuses s d (declare s n) := by
  induction n generalizing d with
  | root site => exact excuses_declareIn hattempts (fun _ _ hn' => ensures_pure hn') hd hn
  | inside parent site ih =>
    refine excuses_declareIn hattempts (fun e he hn' => ?_) hd hn
    refine Ensures.bind (ih he (he.intact.genuine.parent_mem hn' rfl)) fun id e' hok _ => ?_
    obtain ⟨x, hx, -⟩ := exists_of_declare he.sound hok
    have hreads := ((leads_declare s parent).steps hok).reads
    exact ensures_bind_of_ok (outcome_draft_of_some e' hx) (ensures_pure (hreads.nodes_subset hn'))

/-- Declaring carries on: what the type is declared in has a draft by then. -/
theorem carries_declare (hd : d.Ready) (hn : n ∈ d.store.nodes) : Carries s d (declare s n) := by
  refine ⟨fun id d' hok => ?_, (excuses_declare hattempts hd hn).fails⟩
  have hsteps := (leads_declare s n).steps hok
  have hseated := hd.seated.declare (s := s) hn
  rw [hok] at hseated
  exact ⟨⟨hsteps.sound hd.sound, hseated, hsteps.reads.intact hd.intact (hd.whole_of_declare hn hok)⟩, hsteps⟩

/-! ### Filling -/

/-- Filling a draft that is there carries on. -/
def FillCarries (s : Setting) (fuel : Nat) : Prop :=
  ∀ ⦃d : Drafting⦄ ⦃id : DraftId⦄ ⦃x : Draft⦄, d.Ready → d.drafts[id]? = some x → Carries s d (fill s fuel id)

variable {fuel : Nat}

lemma carries_drafted (hfill : FillCarries s fuel) (hd : d.Ready) (hn : n ∈ d.store.nodes) :
    Carries s d (drafted s fuel n) := by
  refine (carries_declare hattempts hd hn).bind fun id e hok he _ => ?_
  obtain ⟨x, hx, -⟩ := exists_of_declare hd.sound hok
  refine (hfill he hx).bind fun _ e' _ he' hsteps => ?_
  obtain ⟨y, hy, -⟩ := hsteps.keepsNodes hx
  exact he'.carries_draft hy

lemma carries_fillProperty (hfill : FillCarries s fuel) (hd : d.Ready) (type : TypeId) (x : Draft)
    {p : String × Entry} (hkey : d.store.HasText p.1) (hp : ∀ n, p.2 = .node n → n ∈ d.store.nodes) :
    Carries s d (fillProperty s fuel type x p) := by
  unfold fillProperty
  split
  · exact hd.carries_skip _
  · next n hentry =>
    refine (carries_drafted hattempts hfill hd (hp n hentry)).bind fun y e _ he hsteps => ?_
    refine he.carries_of_writes type (excuses_writeProperty hattempts _ (hkey.mono hsteps.reads) _ _ y) ?_
    exact fun _ _ hok => (of_writeProperty hok).1

lemma carries_fillItem (hfill : FillCarries s fuel) (hd : d.Ready) (type : TypeId) (x : Draft) {p : Entry × Nat}
    (hp : ∀ n, p.1 = .node n → n ∈ d.store.nodes) : Carries s d (fillItem s fuel type x p) := by
  unfold fillItem
  split
  · exact hd.carries_skip _
  · next n hentry =>
    refine (carries_drafted hattempts hfill hd (hp n hentry)).bind fun y e hok he _ => ?_
    have hy := he.seated.held y (mem_of_drafted hok)
    refine he.carries_of_writes type (excuses_writeItem hattempts _ _ hy) ?_
    exact fun _ _ hok => (of_writeItem hok).1

/-- What is read for a type are nodes of the store, so that its members carry on one after another. -/
lemma carries_fillType (hfill : FillCarries s fuel) (hd : d.Ready) (type : TypeId) {x : Draft}
    (hx : x.node ∈ d.store.nodes) : Carries s d (fillType s fuel type x) := by
  unfold fillType
  refine Carries.bind ?_ fun _ d₁ _ h₁ hsteps₁ => ?_
  · exact hd.carries_of_writes type (excuses_writeScaffold _) fun _ _ hok => (of_writeScaffold hok).1
  refine (h₁.carries_onStore (Store.ensures_properties h₁.intact x.node) (Store.reads_properties _ _)).bind
    fun properties d₂ hread h₂ hsteps₂ => ?_
  obtain ⟨store, trace, hproperties, rfl⟩ := of_onStore_eq_ok hread
  refine Carries.bind ?_ fun _ d₃ _ h₃ _ => ?_
  · refine carries_forM h₂ fun p hp e he hsteps => carries_fillProperty hattempts hfill he type x ?_ fun n hn => ?_
    · obtain ⟨q, hq, hkey, -⟩ := Store.exists_of_mem_right (Store.of_properties_eq_ok hproperties) hp
      have hnode := (Steps.reads ((hsteps₁.trans hsteps₂).trans hsteps)).nodes_subset hx
      exact ⟨x.node, hnode, hkey ▸ Store.mem_texts_of_propertyEntries hq⟩
    · exact hsteps.reads.nodes_subset (Store.mem_nodes_of_properties hproperties hp hn)
  refine (h₃.carries_onStore (Store.ensures_items h₃.intact x.node) (Store.reads_items _ _)).bind
    fun items d₄ hread h₄ _ => ?_
  obtain ⟨store', trace', hitems, rfl⟩ := of_onStore_eq_ok hread
  refine Carries.bind ?_ fun _ d₅ _ h₅ _ => ?_
  · refine carries_forM h₄ fun p hp e he hsteps => carries_fillItem hattempts hfill he type x fun n hn => ?_
    have hmem : p.1 ∈ items := List.fst_mem_of_mem_zipIdx hp
    exact hsteps.reads.nodes_subset (Store.mem_nodes_of_items hitems (hn ▸ hmem))
  · exact h₅.carries_of_writes type (excuses_fillSize x) fun _ _ hok => (of_fillSize hok).1

/-- Filling carries on, with any bound. -/
theorem carries_fill (fuel : Nat) : FillCarries s fuel := by
  induction fuel with
  | zero => exact fun d id x hd hx => ensures_throw (.reading (.bounded rfl))
  | succ fuel ih =>
    intro d id x hd hx
    rw [fill_succ]
    refine ensures_bind_of_ok (outcome_draft_of_some d hx) ?_
    split
    · exact hd.carries_pure _
    next hnot =>
    have hstep : Step s d (d.withStarted id) := .start hx (by simpa using hnot)
    have hstarted : (d.withStarted id).Ready :=
      ⟨hstep.sound hd.sound, hd.seated.of_modify rfl rfl fun _ => rfl, hd.intact⟩
    have hrest : Carries s (d.withStarted id) (fillDraft s fuel x) := by
      unfold fillDraft
      split
      · exact hstarted.carries_pure _
      · exact carries_fillType hattempts ih hstarted _ (hd.seated.held x (List.mem_of_getElem? hx))
    refine ensures_bind_of_ok (outcome_update d id _) ?_
    exact hrest.mono fun _ _ _ h => ⟨h.1, .head hstep h.2⟩

lemma carries_fillBound (hd : d.Ready) {id : DraftId} {x : Draft} (hx : d.drafts[id]? = some x) :
    Carries s d (do fill s (← bound s) id) :=
  ensures_bind_of_ok (outcome_bound d) (carries_fill hattempts _ hd hx)

lemma carries_complete (hd : d.Ready) (hn : n ∈ d.store.nodes) : Carries s d (complete s n) := by
  refine (carries_declare hattempts hd hn).bind fun id e hok he _ => ?_
  obtain ⟨x, hx, -⟩ := exists_of_declare hd.sound hok
  have hrest := (carries_fillBound hattempts he hx).bind fun _ e' _ he' _ => he'.carries_pure id
  rwa [bind_assoc] at hrest

lemma carries_finishOne (hd : d.Ready) {id : DraftId} {x : Draft} (hx : d.drafts[id]? = some x) :
    Carries s d (finishOne s id) := by
  refine ensures_bind_of_ok (outcome_draft_of_some d hx) ?_
  refine (hd.carries_note _).bind fun _ e _ he hsteps => ?_
  obtain ⟨y, hy, -⟩ := hsteps.keepsNodes hx
  exact carries_fillBound hattempts he hy

lemma carries_finishIn (hd : d.Ready) (rounds : Nat) : Carries s d (finishIn s rounds) := by
  induction rounds generalizing d with
  | zero => exact ensures_throw (.reading (.bounded rfl))
  | succ rounds ih =>
    rw [finishIn_succ]
    refine ensures_bind_of_ok (outcome_pending hd.sound) ?_
    split
    · exact hd.carries_pure _
    · refine Carries.bind ?_ fun _ e _ he _ => ih he
      refine carries_forM hd fun id hid e he hsteps => ?_
      obtain ⟨x, hx, -⟩ := mem_waiting.1 hid
      obtain ⟨y, hy, -⟩ := hsteps.keepsNodes hx
      exact carries_finishOne hattempts he hy

/-- A pass fails of nothing else than what drafting may fail of. -/
theorem carries_pass (hd : d.Ready) (hn : n ∈ d.store.nodes) : Carries s d (pass s n) := by
  refine (carries_complete hattempts hd hn).bind fun id e _ he _ => ?_
  exact ensures_bind_of_ok (outcome_bound e) (carries_finishIn hattempts he _)

end Attempts

end Carries

end Drafting

end SchemaAccessors
