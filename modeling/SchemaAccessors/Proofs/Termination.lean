import SchemaAccessors.Proofs.Ending
import SchemaAccessors.Proofs.Members

/-!
# Passes come to an end

Filling goes deeper only where it starts a draft, and a round of the rest starts one as well. Drafts are those of
nodes of the store, no two of a URI, so there are no more of them than nodes, and of nodes there are only so many
where the loader answers for finitely many URIs. What is left of a bound and what is started add up to more than
the nodes that there can be (`Fed`), and this is kept on the way. So no bound of a pass is ever reached.
-/

namespace SchemaAccessors

/-- Where each member of a list has a counterpart at its place in another, the other has as many of a kind, and
more if a counterpart alone is of the kind. -/
lemma countP_le_of_getElem? {α : Type} {p : α → Bool} {xs ys : List α}
    (h : ∀ (j : Nat) (x : α), xs[j]? = some x → ∃ y, ys[j]? = some y ∧ (p x = true → p y = true)) :
    xs.countP p ≤ ys.countP p ∧
      ∀ (j : Nat) (x y : α), xs[j]? = some x → ys[j]? = some y → p x = false → p y = true →
        xs.countP p < ys.countP p := by
  induction xs generalizing ys with
  | nil => simp
  | cons x xs ih =>
    obtain ⟨y, hy, hxy⟩ := h 0 x rfl
    cases ys with
    | nil => simp at hy
    | cons y' ys =>
      obtain rfl : y' = y := by
        simpa using hy
      have htail : ∀ (j : Nat) (x : α), xs[j]? = some x → ∃ y, ys[j]? = some y ∧ (p x = true → p y = true) :=
        fun j x' hx => h (j + 1) x' hx
      obtain ⟨hle, hlt⟩ := ih htail
      have hhead : (if p x = true then 1 else 0) ≤ if p y' = true then 1 else 0 := by
        split_ifs with hpx hpy
        · exact le_rfl
        · exact absurd (hxy hpx) hpy
        · omega
        · exact le_rfl
      rw [List.countP_cons, List.countP_cons]
      refine ⟨by omega, fun j a b ha hb hpa hpb => ?_⟩
      cases j with
      | zero =>
        obtain rfl : x = a := by
          simpa using ha
        obtain rfl : y' = b := by
          simpa using hb
        simp only [hpa, hpb, Bool.false_eq_true, if_false, if_true]
        omega
      | succ j =>
        have hrest := hlt j a b ha hb hpa hpb
        omega

namespace Drafting

/-! ## Drafts of nodes of the store -/

/-- The drafts are those of nodes of the store. -/
structure Seated (d : Drafting) : Prop where
  genuine : d.store.Genuine
  held : ∀ x ∈ d.drafts, x.node ∈ d.store.nodes

namespace Seated

variable {s : Setting} {n : SchemaNode} {d d' : Drafting}

lemma mono (h : d.Seated) (hreads : d.store.Reads s.loader d'.store)
    (hdrafts : ∀ y ∈ d'.drafts, ∃ x ∈ d.drafts, x.node = y.node) : d'.Seated := by
  refine ⟨hreads.genuine h.genuine, fun y hy => ?_⟩
  obtain ⟨x, hx, hnode⟩ := hdrafts y hy
  rw [← hnode]
  exact hreads.nodes_subset (h.held x hx)

lemma read {store : Store} (h : d.Seated) (hreads : d.store.Reads s.loader store) (trace : Trace) :
    Seated { d with store, trace } :=
  h.mono hreads fun y hy => ⟨y, hy, rfl⟩

lemma of_modify {id : DraftId} {f : Draft → Draft} (h : d.Seated) (hstore : d'.store = d.store)
    (hdrafts : d'.drafts = d.drafts.modify id f) (hnode : ∀ x, (f x).node = x.node) : d'.Seated := by
  refine ⟨hstore ▸ h.genuine, fun y hy => ?_⟩
  rw [hdrafts] at hy
  obtain ⟨j, hj⟩ := List.getElem?_of_mem hy
  obtain ⟨x, hx, rfl⟩ := getElem?_of_modify hj
  have hheld := h.held x (List.mem_of_getElem? hx)
  rw [hstore]
  split
  · rwa [hnode]
  · exact hheld

lemma withDraft (h : d.Seated) (hn : n ∈ d.store.nodes) : (d.withDraft n).Seated := by
  refine ⟨h.genuine, fun x hx => ?_⟩
  rcases List.mem_append.1 hx with hx | hx
  · exact h.held x hx
  · rw [List.mem_singleton.1 hx]
    exact hn

lemma declareIn {container : DraftM Container}
    (hcontainer : ∀ d, d.Seated → n ∈ d.store.nodes → (outcome container d).2.Seated)
    (h : d.Seated) (hn : n ∈ d.store.nodes) : (outcome (declareIn s n container) d).2.Seated := by
  cases hl : d.registry.lookup n.uri with
  | some id? =>
    cases id? with
    | none =>
      rw [outcome_declareIn_of_reserved hl]
      exact h
    | some id =>
      rw [outcome_declareIn_of_found hl]
      exact h
  | none =>
    rw [outcome_declareIn_of_fresh hl]
    have hnew := h.withDraft hn
    obtain ⟨store, trace, hreads, hasked⟩ := outcome_needsType s n (.ofKinds n.kinds) (d.withDraft n)
    have hread := hnew.read hreads trace
    have hn' : n ∈ store.nodes := hreads.nodes_subset hn
    have hgiven := given_giveType s n container d.drafts.length (d.withDraft n)
    generalize outcome (giveType s n container d.drafts.length) (d.withDraft n) = r at hgiven ⊢
    cases hgiven with
    | unread asked =>
      rw [asked] at hasked
      exact hasked ▸ hread
    | untyped asked =>
      rw [asked] at hasked
      obtain rfl := hasked
      exact hread.read (s := s) .refl _
    | @unnamed e e' trace' asked =>
      rw [asked] at hasked
      obtain rfl := hasked
      exact (hcontainer _ hread hn').read (s := s) .refl trace'
    | @typed e e' c name trace' asked contained spelled free single =>
      rw [asked] at hasked
      obtain rfl := hasked
      have hcontained := hcontainer _ hread hn'
      rw [contained] at hcontained
      have htyped : Seated (e'.withType d.drafts.length c name (documentation s n)) :=
        hcontained.of_modify rfl rfl fun _ => rfl
      exact htyped.read (s := s) .refl trace'

/-- Declaring makes drafts for nodes of the store only: what a node is written in is in the store with it. -/
theorem declare (h : d.Seated) (hn : n ∈ d.store.nodes) : (outcome (Drafting.declare s n) d).2.Seated := by
  induction n generalizing d with
  | root site => exact h.declareIn (fun _ he _ => he) hn
  | inside parent site ih =>
    refine h.declareIn (fun e he hn' => ?_) hn
    have hparent := ih he (he.genuine.parent_mem hn' rfl)
    rcases hr : outcome (Drafting.declare s parent) e with ⟨failure | id, e'⟩
    · rw [hr] at hparent
      rwa [outcome_bind_of_error hr]
    · rw [hr] at hparent
      rw [outcome_bind_of_ok hr, outcome_bind, outcome_draft]
      cases e'.drafts[id]? with
      | none => exact hparent
      | some x => exact hparent

lemma of_writes {type : TypeId} (h : d.Seated) (hwrites : Writes s type d d') : d'.Seated := by
  refine ⟨hwrites.store ▸ h.genuine, fun x hx => ?_⟩
  rw [hwrites.drafts] at hx
  rw [hwrites.store]
  exact h.held x hx

end Seated

lemma seated_start {store : Store} (hstore : store.Genuine) (model : Model) : (start store model).Seated :=
  ⟨hstore, fun _ hx => (List.not_mem_nil hx).elim⟩

/-! ## What is left of a bound -/

/-- How many drafts are started. -/
def begun (d : Drafting) : Nat :=
  d.drafts.countP (·.started)

/-- What is left of a bound and what is started add up to more than the nodes that the store can come to have. -/
structure Fed (s : Setting) (fuel : Nat) (d : Drafting) : Prop where
  sound : d.Sound
  seated : d.Seated
  ample : ∀ store, d.store.Reads s.loader store → store.weight < fuel + d.begun

lemma Steps.begun_le {s : Setting} {d d' : Drafting} (h : Steps s d d') :
    d.begun ≤ d'.begun ∧ ∀ (j : Nat) (x y : Draft), d.drafts[j]? = some x → d'.drafts[j]? = some y →
      x.started = false → y.started = true → d.begun < d'.begun := by
  refine countP_le_of_getElem? fun j x hx => ?_
  obtain ⟨y, hy, -, hstarted⟩ := h.keepsNodes hx
  exact ⟨y, hy, hstarted⟩

namespace Fed

variable {s : Setting} {fuel : Nat} {d d' : Drafting}

/-- No more drafts are started than the store has nodes. -/
lemma begun_le (h : Fed s fuel d) : d.begun ≤ d.store.weight := by
  have hstarted : d.begun ≤ d.uris.length := by
    rw [uris, List.length_map]
    exact List.countP_le_length
  have hknown : d.uris ⊆ d.store.nodes.map (·.uri) := by
    intro uri huri
    obtain ⟨x, hx, rfl⟩ := List.mem_map.1 huri
    exact List.mem_map_of_mem (h.seated.held x hx)
  have hdrafts := (h.sound.distinct.subperm hknown).length_le
  have hnodes : d.store.nodes.length ≤ d.store.weight := List.length_filterMap_le _ _
  rw [List.length_map] at hdrafts
  omega

/-- So there is something left. -/
lemma ne_zero (h : Fed s 0 d) : False := by
  have hbegun := h.begun_le
  have hample := h.ample _ .refl
  omega

lemma more {fuel' : Nat} (h : Fed s fuel d) (hle : fuel ≤ fuel') : Fed s fuel' d := by
  refine ⟨h.sound, h.seated, fun store hreads => ?_⟩
  have hample := h.ample store hreads
  omega

lemma steps (h : Fed s fuel d) (hsteps : Steps s d d') (hseated : d'.Seated) : Fed s fuel d' := by
  refine ⟨hsteps.sound h.sound, hseated, fun store hreads => ?_⟩
  have hample := h.ample store (hsteps.reads.trans hreads)
  have hbegun := hsteps.begun_le.1
  omega

/-- A draft that is started makes up for one less. -/
lemma fewer {j : Nat} {x y : Draft} (h : Fed s (fuel + 1) d) (hsteps : Steps s d d') (hseated : d'.Seated)
    (hx : d.drafts[j]? = some x) (hy : d'.drafts[j]? = some y) (hunstarted : x.started = false)
    (hstarted : y.started = true) : Fed s fuel d' := by
  refine ⟨hsteps.sound h.sound, hseated, fun store hreads => ?_⟩
  have hample := h.ample store (hsteps.reads.trans hreads)
  have hbegun := hsteps.begun_le.2 j x y hx hy hunstarted hstarted
  omega

/-- The bound that a pass works with is enough in any state. -/
lemma of_seated (hfinite : {uri | ∃ document, s.loader.fetch uri = .ok document}.Finite) (hsound : d.Sound)
    (hseated : d.Seated) : Fed s (d.store.capacity s.loader + 1) d := by
  refine ⟨hsound, hseated, fun store hreads => ?_⟩
  have hweight := hreads.weight_lt_capacity hfinite
  omega

end Fed

/-! ## Steps that last -/

/-- Steps that do not come to a bound from a state, and leave as much of it where they succeed. -/
def Lasts {α : Type} (s : Setting) (fuel : Nat) (d : Drafting) (steps : DraftM α) : Prop :=
  (outcome steps d).1 ≠ .error .exhausted ∧
    ∀ a d', outcome steps d = (.ok a, d') → Fed s fuel d' ∧ d.store.Reads s.loader d'.store

section Lasts

variable {α β : Type} {s : Setting} {fuel : Nat} {d : Drafting}

lemma Fed.lasts {steps : DraftM α} (h : Fed s fuel d) (hends : Ends steps) (hleads : Leads s steps)
    (hseated : ∀ a d', outcome steps d = (.ok a, d') → d'.Seated) : Lasts s fuel d steps := by
  refine ⟨hends d, fun a d' hok => ?_⟩
  have hsteps := hleads.steps hok
  exact ⟨h.steps hsteps (hseated a d' hok), hsteps.reads⟩

lemma Lasts.bind {x : DraftM α} {f : α → DraftM β} (hx : Lasts s fuel d x)
    (hf : ∀ a d', outcome x d = (.ok a, d') → Fed s fuel d' → d.store.Reads s.loader d'.store →
      Lasts s fuel d' (f a)) : Lasts s fuel d (x >>= f) := by
  refine ⟨outcome_bind_ne_error hx.1 fun a t ha => ?_, fun b d'' hok => ?_⟩
  · obtain ⟨hfed, hreads⟩ := hx.2 a t ha
    exact (hf a t ha hfed hreads).1
  · obtain ⟨a, t, ha, hb⟩ := outcome_bind_eq_ok hok
    obtain ⟨hfed, hreads⟩ := hx.2 a t ha
    obtain ⟨hfed', hreads'⟩ := (hf a t ha hfed hreads).2 b d'' hb
    exact ⟨hfed', hreads.trans hreads'⟩

lemma lasts_pure (h : Fed s fuel d) (a : α) : Lasts s fuel d (pure a) := by
  refine ⟨by simp, fun b d' hok => ?_⟩
  obtain rfl : d = d' := congrArg Prod.snd hok
  exact ⟨h, .refl⟩

lemma lasts_forM {f : α → DraftM PUnit} {xs : List α} (h : Fed s fuel d)
    (hf : ∀ a ∈ xs, ∀ e, Fed s fuel e → d.store.Reads s.loader e.store → Lasts s fuel e (f a)) :
    Lasts s fuel d (xs.forM f) := by
  induction xs generalizing d with
  | nil => exact lasts_pure h _
  | cons a xs ih =>
    refine (hf a List.mem_cons_self d h .refl).bind fun _ e _ he hreads => ?_
    refine ih he fun b hb e' he' hreads' => ?_
    exact hf b (List.mem_cons_of_mem _ hb) e' he' (hreads.trans hreads')

lemma Fed.lasts_of_writes {steps : DraftM α} (h : Fed s fuel d) (type : TypeId) (hends : Ends steps)
    (hleads : Leads s steps) (hwrites : ∀ a d', outcome steps d = (.ok a, d') → Writes s type d d') :
    Lasts s fuel d steps :=
  h.lasts hends hleads fun a d' hok => h.seated.of_writes (hwrites a d' hok)

lemma Fed.lasts_onStore {steps : StoreM α} (h : Fed s fuel d)
    (hends : ∀ store, (outcome steps store).1 ≠ .error .exhausted)
    (hreads : ∀ store, Store.Reads s.loader store (outcome steps store).2) : Lasts s fuel d (onStore steps) := by
  refine h.lasts (ends_onStore hends) (leads_onStore hreads) fun a d' hok => ?_
  obtain ⟨store, trace, hsteps, rfl⟩ := of_onStore_eq_ok hok
  have hstore := hreads d.store
  rw [hsteps] at hstore
  exact h.seated.read hstore trace

lemma Fed.lasts_draft (h : Fed s fuel d) (id : DraftId) : Lasts s fuel d (draft id) := by
  refine h.lasts (ends_draft id) (leads_draft id) fun x d' hok => ?_
  rw [(of_draft_eq_ok hok).2]
  exact h.seated

lemma Fed.lasts_skip (h : Fed s fuel d) (entry : MalformedEntry) : Lasts s fuel d (skip s entry) := by
  refine h.lasts (ends_skip entry) (leads_skip entry) fun _ d' hok => ?_
  obtain ⟨trace, rfl⟩ := of_skip hok
  exact h.seated.read (s := s) .refl trace

end Lasts

/-! ## Filling -/

section Fill

variable {s : Setting} {fuel : Nat} {d : Drafting}
  (hfinite : {uri | ∃ document, s.loader.fetch uri = .ok document}.Finite)

/-- Filling with a bound lasts. -/
def FillLasts (s : Setting) (fuel : Nat) : Prop :=
  ∀ d id, Fed s fuel d → Lasts s fuel d (fill s fuel id)

include hfinite

lemma lasts_declare (h : Fed s fuel d) {n : SchemaNode} (hn : n ∈ d.store.nodes) :
    Lasts s fuel d (declare s n) := by
  refine h.lasts (ends_declare hfinite n) (leads_declare s n) fun id d' hok => ?_
  have hseated := h.seated.declare (s := s) hn
  rwa [hok] at hseated

lemma lasts_drafted (hfill : FillLasts s fuel) (h : Fed s fuel d) {n : SchemaNode} (hn : n ∈ d.store.nodes) :
    Lasts s fuel d (drafted s fuel n) := by
  refine (lasts_declare hfinite h hn).bind fun id e _ he _ => ?_
  exact (hfill e id he).bind fun _ e' _ he' _ => he'.lasts_draft id

lemma lasts_fillProperty (hfill : FillLasts s fuel) (h : Fed s fuel d) (type : TypeId) (x : Draft)
    (p : String × Entry) (hp : ∀ n, p.2 = .node n → n ∈ d.store.nodes) :
    Lasts s fuel d (fillProperty s fuel type x p) := by
  unfold fillProperty
  split
  · exact h.lasts_skip _
  · next n hentry =>
    refine (lasts_drafted hfinite hfill h (hp n hentry)).bind fun y e _ he _ => ?_
    refine he.lasts_of_writes type (ends_writeProperty _ _ _ _ _ y) (leads_writeProperty _ _ _ _ y) ?_
    exact fun _ d' hok => (of_writeProperty hok).1

lemma lasts_fillItem (hfill : FillLasts s fuel) (h : Fed s fuel d) (type : TypeId) (x : Draft)
    (p : Entry × Nat) (hp : ∀ n, p.1 = .node n → n ∈ d.store.nodes) :
    Lasts s fuel d (fillItem s fuel type x p) := by
  unfold fillItem
  split
  · exact h.lasts_skip _
  · next n hentry =>
    refine (lasts_drafted hfinite hfill h (hp n hentry)).bind fun y e _ he _ => ?_
    refine he.lasts_of_writes type (ends_writeItem _ _ _ y) (leads_writeItem _ _ y) ?_
    exact fun _ d' hok => (of_writeItem hok).1

/-- Filling a type lasts if filling does that it asks for on the way. -/
lemma lasts_fillType (hfill : FillLasts s fuel) (h : Fed s fuel d) (type : TypeId) (x : Draft) :
    Lasts s fuel d (fillType s fuel type x) := by
  unfold fillType
  refine Lasts.bind ?_ fun _ d₁ _ h₁ _ => ?_
  · refine h.lasts_of_writes type (ends_writeScaffold _ _) (leads_writeScaffold _) ?_
    exact fun _ d' hok => (of_writeScaffold hok).1
  refine Lasts.bind ?_ fun properties d₂ hread h₂ _ => ?_
  · exact h₁.lasts_onStore (Store.properties_ne_exhausted hfinite x.node) (Store.reads_properties _ _)
  obtain ⟨store, trace, hproperties, rfl⟩ := of_onStore_eq_ok hread
  refine Lasts.bind ?_ fun _ d₃ _ h₃ _ => ?_
  · refine lasts_forM h₂ fun p hp e he hreads => lasts_fillProperty hfinite hfill he type x p fun n hn => ?_
    exact hreads.nodes_subset (Store.mem_nodes_of_properties hproperties hp hn)
  refine Lasts.bind ?_ fun items d₄ hread h₄ _ => ?_
  · exact h₃.lasts_onStore (Store.items_ne_exhausted hfinite x.node) (Store.reads_items _ _)
  obtain ⟨store', trace', hitems, rfl⟩ := of_onStore_eq_ok hread
  refine Lasts.bind ?_ fun _ d₅ _ h₅ _ => ?_
  · refine lasts_forM h₄ fun p hp e he hreads => lasts_fillItem hfinite hfill he type x p fun n hn => ?_
    have hmem : p.1 ∈ items := List.fst_mem_of_mem_zipIdx hp
    exact hreads.nodes_subset (Store.mem_nodes_of_items hitems (hn ▸ hmem))
  · refine h₅.lasts_of_writes type (ends_fillSize _ _) ?_ fun _ d' hok => (of_fillSize hok).1
    exact leads_fillSize type x

/-- Filling lasts: where it calls itself, a draft was started before. -/
theorem lasts_fill (fuel : Nat) : FillLasts s fuel := by
  induction fuel with
  | zero => exact fun d id h => h.ne_zero.elim
  | succ fuel ih =>
    intro d id h
    rw [fill_succ]
    refine (h.lasts_draft id).bind fun x e hdraft he _ => ?_
    obtain ⟨hx, rfl⟩ := of_draft_eq_ok hdraft
    split
    · exact lasts_pure h _
    next hnot =>
    have hunstarted : x.started = false := by simpa using hnot
    have hstep : Step s e (e.withStarted id) := .start hx hunstarted
    have hself : (e.withStarted id).drafts[id]? = some { x with started := true } := by
      simp [withStarted, hx]
    have hseated : (e.withStarted id).Seated := h.seated.of_modify rfl rfl fun _ => rfl
    have hless : Fed s fuel (e.withStarted id) := h.fewer (.single hstep) hseated hx hself hunstarted rfl
    have hrest : Lasts s fuel (e.withStarted id) (fillDraft s fuel x) := by
      unfold fillDraft
      split
      · exact lasts_pure hless _
      · exact lasts_fillType hfinite ih hless _ x
    refine ⟨?_, fun _ d' hok => ?_⟩
    · rw [outcome_bind_of_ok (outcome_update e id _)]
      exact hrest.1
    · rw [outcome_bind_of_ok (outcome_update e id _)] at hok
      obtain ⟨hfed, hreads⟩ := hrest.2 _ d' hok
      exact ⟨hfed.more (Nat.le_succ fuel), hreads⟩

/-- Filling lasts with the bound that it is given in a pass. -/
lemma lasts_fill_bound (h : Fed s fuel d) (id : DraftId) : Lasts s fuel d (do fill s (← bound s) id) := by
  have hfill := lasts_fill hfinite _ d id (.of_seated hfinite h.sound h.seated)
  unfold Lasts
  rw [outcome_bind_of_ok (outcome_bound d)]
  refine ⟨hfill.1, fun a d' hok => ?_⟩
  obtain ⟨hfed, hreads⟩ := hfill.2 a d' hok
  exact ⟨h.steps ((leads_fill _ id).steps hok) hfed.seated, hreads⟩

lemma lasts_complete (h : Fed s fuel d) {n : SchemaNode} (hn : n ∈ d.store.nodes) :
    Lasts s fuel d (complete s n) := by
  refine (lasts_declare hfinite h hn).bind fun id e _ he _ => ?_
  have hrest := (lasts_fill_bound hfinite he id).bind fun _ e' _ he' _ => lasts_pure he' id
  rwa [bind_assoc] at hrest

lemma lasts_finishOne (h : Fed s fuel d) (id : DraftId) : Lasts s fuel d (finishOne s id) := by
  refine (h.lasts_draft id).bind fun x e _ he _ => ?_
  refine Lasts.bind ?_ fun _ e' _ he' _ => lasts_fill_bound hfinite he' id
  refine he.lasts (ends_note _) (leads_note _) fun _ e' hok => ?_
  obtain rfl : { e with trace := e.trace.push (.completing x.node.uri) } = e' := congrArg Prod.snd hok
  exact he.seated.read (s := s) .refl _

/-- A round in which something is pending starts a draft. -/
lemma fed_of_round {rounds : Nat} {d' : Drafting} (h : Fed s (rounds + 1) d) (hwaiting : d.waiting ≠ [])
    (hok : outcome (d.waiting.forM (finishOne s)) d = (.ok ⟨⟩, d')) : Fed s rounds d' := by
  have hround : Lasts s (rounds + 1) d (d.waiting.forM (finishOne s)) :=
    lasts_forM h fun id _ e he _ => lasts_finishOne hfinite he id
  have hseated : d'.Seated := (hround.2 _ d' hok).1.seated
  obtain ⟨id, ids, hids⟩ := List.exists_cons_of_ne_nil hwaiting
  obtain ⟨x, hx, hunstarted⟩ := mem_waiting.1 (show id ∈ d.waiting from hids ▸ List.mem_cons_self)
  rw [hids, outcome_forM_cons] at hok
  obtain ⟨⟨⟩, e, hone, hrest⟩ := outcome_bind_eq_ok hok
  obtain ⟨y, hy, hs⟩ := started_of_finishOne hone
  have hsteps : Steps s e d' := (leads_forM fun id _ => leads_finishOne id).steps hrest
  obtain ⟨z, hz, -, hstarted⟩ := hsteps.keepsNodes hy
  have hall : Steps s d d' := ((leads_finishOne id).steps hone).trans hsteps
  exact h.fewer hall hseated hx hz hunstarted (hstarted hs)

/-- The rounds are enough. -/
theorem finishIn_ne_exhausted {rounds : Nat} (h : Fed s rounds d) :
    (outcome (finishIn s rounds) d).1 ≠ .error .exhausted := by
  induction rounds generalizing d with
  | zero => exact h.ne_zero.elim
  | succ rounds ih =>
    rw [finishIn_succ, outcome_bind_of_ok (outcome_pending h.sound)]
    split
    · simp
    · next hpending =>
      have hround : Lasts s (rounds + 1) d (d.waiting.forM (finishOne s)) :=
        lasts_forM h fun id _ e he _ => lasts_finishOne hfinite he id
      have hwaiting : d.waiting ≠ [] := by simpa using hpending
      exact outcome_bind_ne_error hround.1 fun _ e hok => ih (fed_of_round hfinite h hwaiting hok)

/-- A pass over documents that a finite loader answers with does not come to a bound, in whichever state it begins. -/
theorem pass_ne_exhausted_of_seated {root : SchemaNode} (hsound : d.Sound) (hseated : d.Seated)
    (hroot : root ∈ d.store.nodes) : (outcome (pass s root) d).1 ≠ .error .exhausted := by
  have hfed := Fed.of_seated hfinite hsound hseated
  have hcomplete := lasts_complete hfinite hfed hroot
  refine outcome_bind_ne_error hcomplete.1 fun id d hok => ?_
  obtain ⟨hfed', -⟩ := hcomplete.2 id d hok
  unfold finish
  rw [outcome_bind_of_ok (outcome_bound d)]
  exact finishIn_ne_exhausted hfinite (.of_seated hfinite hfed'.sound hfed'.seated)

theorem pass_ne_exhausted {store : Store} {root : SchemaNode} (model : Model) (hstore : store.Genuine)
    (hroot : root ∈ store.nodes) : (outcome (pass s root) (start store model)).1 ≠ .error .exhausted :=
  pass_ne_exhausted_of_seated hfinite (sound_start store model) (seated_start hstore model) hroot

end Fill

end Drafting

end SchemaAccessors
