import SchemaAccessors.Proofs.Coverage
import SchemaAccessors.Proofs.Strictness

/-!
# What a pass warns of

A lenient pass warns of each property and item of a node with a type that stands for no schema, once, and of nothing
else. The warnings for one type are mixed with those for the types that are filled on the way, so what a call warns
of is counted: `Reports` says that its warnings are those for the types that it fills, besides some of a type that is
on the way, and that it starts the drafts of the same nodes. Filling a type closes its own account.
-/

namespace SchemaAccessors

/-! ## What is warned of -/

namespace SchemaNode

/-- The entry of a node that a property was found to be, if that is no schema. -/
def malformedProperty? (n : SchemaNode) (p : String × Entry) : Option MalformedEntry :=
  match p.2 with
  | .plain value => some ⟨.property p.1, n.uri, value⟩
  | .node _ => none

/-- The entry of a node that the item at a position was found to be, if that is no schema. -/
def malformedItem? (n : SchemaNode) (p : Entry × Nat) : Option MalformedEntry :=
  match p.1 with
  | .plain value => some ⟨.item p.2, n.uri, value⟩
  | .node _ => none

end SchemaNode

/-- The entries among findings for a node that are no schemas. -/
def Findings.malformed (f : Findings) (n : SchemaNode) : List MalformedEntry :=
  f.properties.filterMap n.malformedProperty? ++ f.items.zipIdx.filterMap n.malformedItem?

namespace Drafting

/-- The nodes that types were filled for, or are being filled for. -/
def filledNodes (d : Drafting) : List SchemaNode :=
  (d.drafts.filter fun x => x.started && x.wrapper?.isSome).map (·.node)

/-- Findings for a node of the last store: what its entries stood for, somewhere between two stores. -/
structure Explains (loader : Loader) (first last : Store) (n : SchemaNode) (f : Findings) : Prop where
  held : n ∈ last.nodes
  properties : List.Forall₂ (fun p q => q.1 = p.1 ∧ Store.StoodFor loader first last p.2 q.2)
    (last.propertyEntries n) f.properties
  items : List.Forall₂ (Store.StoodFor loader first last) (last.itemEntries n) f.items

lemma Explains.mono {loader : Loader} {first first' last last' : Store} {n : SchemaNode} {f : Findings}
    (h : Explains loader first last n f) (hgenuine : last.Genuine) (hfirst : first'.Reads loader first)
    (hlast : last.Reads loader last') : Explains loader first' last' n f := by
  have hloaded := hgenuine.hasLoaded h.held
  refine ⟨hlast.nodes_subset h.held, ?_, ?_⟩
  · rw [hlast.propertyEntries_eq hloaded]
    exact h.properties.imp fun _ _ ⟨hkey, hstood⟩ => ⟨hkey, hstood.mono hfirst hlast⟩
  · rw [hlast.itemEntries_eq hloaded]
    exact h.items.imp fun _ _ hstood => hstood.mono hfirst hlast

/-- From one state to another, types are filled for the nodes in a log, by the findings that stand there with them.
What is warned of are the malformed entries among these findings, besides `own` entries of a type on the way. -/
structure Reports (s : Setting) (own : Multiset MalformedEntry) (log : Multiset (SchemaNode × Findings))
    (d d' : Drafting) : Prop where
  seated : d'.Seated
  reads : d.store.Reads s.loader d'.store
  filled : (d'.filledNodes : Multiset SchemaNode) = d.filledNodes + log.map Prod.fst
  warnings : (d'.trace.warnings : Multiset String) =
    d.trace.warnings + (own + log.bind fun p => (p.2.malformed p.1 : Multiset MalformedEntry)).map
      MalformedEntry.message
  explained : ∀ p ∈ log, Explains s.loader d.store d'.store p.1 p.2

namespace Reports

variable {s : Setting} {own own' : Multiset MalformedEntry} {log log' : Multiset (SchemaNode × Findings)}
  {d d' d'' : Drafting}

lemma trans (h : Reports s own log d d') (h' : Reports s own' log' d' d'') :
    Reports s (own + own') (log + log') d d'' where
  seated := h'.seated
  reads := h.reads.trans h'.reads
  filled := by rw [h'.filled, h.filled, Multiset.map_add, add_assoc]
  warnings := by
    rw [h'.warnings, h.warnings]
    simp only [Multiset.map_add, Multiset.add_bind]
    abel
  explained p hp := by
    rcases Multiset.mem_add.1 hp with hp | hp
    · exact (h.explained p hp).mono h.seated.genuine .refl h'.reads
    · exact (h'.explained p hp).mono h'.seated.genuine h.reads .refl

/-- Nothing is filled and nothing is warned of. -/
lemma of_silent (hseated : d'.Seated) (hreads : d.store.Reads s.loader d'.store)
    (hfilled : d'.filledNodes = d.filledNodes) (hwarnings : d'.trace.warnings = d.trace.warnings) :
    Reports s 0 0 d d' :=
  ⟨hseated, hreads, by simp [hfilled], by simp [hwarnings], fun p hp => (Multiset.notMem_zero p hp).elim⟩

lemma refl (h : d.Seated) : Reports s 0 0 d d :=
  .of_silent h .refl rfl rfl

lemma of_writes {type : TypeId} (h : d.Seated) (hwrites : Writes s type d d')
    (hwarnings : d'.trace.warnings = d.trace.warnings) : Reports s 0 0 d d' :=
  .of_silent (h.of_writes hwrites) (by rw [hwrites.store]) (by rw [filledNodes, hwrites.drafts]; rfl) hwarnings

end Reports

/-- New drafts that are not started change nothing about what is filled. -/
lemma Adds.filledNodes_eq {s : Setting} {d d' : Drafting} (h : Adds s d d') : d'.filledNodes = d.filledNodes := by
  obtain ⟨rest, hrest⟩ := h.drafts
  have hidle : rest.filter (fun x => x.started && x.wrapper?.isSome) = [] := by
    refine List.filter_eq_nil_iff.2 fun x hx hs => ?_
    obtain ⟨i, hi⟩ := List.getElem?_of_mem hx
    have hnew : d'.drafts[d.drafts.length + i]? = some x := by
      rw [← hrest, List.getElem?_append_right (Nat.le_add_right _ _), Nat.add_sub_cancel_left, hi]
    have hold := h.idle hnew (Bool.and_eq_true_iff.1 hs).1
    rw [List.getElem?_eq_none (Nat.le_add_right _ _)] at hold
    cases hold
  rw [filledNodes, ← hrest, List.filter_append, hidle, List.append_nil]
  rfl

/-- Members at one place of a list, before and after a change there. -/
lemma coe_filter_modify {α : Type} {p : α → Bool} {f : α → α} {xs : List α} {i : Nat} {x : α}
    (hx : xs[i]? = some x) (hbefore : p x = false) :
    ((xs.modify i f).filter p : Multiset α) = xs.filter p + if p (f x) then {f x} else 0 := by
  induction xs generalizing i with
  | nil => simp at hx
  | cons y ys ih =>
    cases i with
    | zero =>
      obtain rfl : y = x := by simpa using hx
      by_cases hafter : p (f y) = true
      · have hcons : ((f y :: ys.filter p : List α) : Multiset α) = ys.filter p + {f y} := by
          rw [← Multiset.cons_coe, ← Multiset.singleton_add, add_comm]
        simpa [hbefore, hafter] using hcons
      · simp [hbefore, hafter]
    | succ i =>
      have hrest := ih (i := i) (by simpa using hx)
      by_cases hy : p y = true
      · simp only [List.modify_succ_cons, List.filter_cons_of_pos hy, ← Multiset.cons_coe, hrest,
          Multiset.cons_add]
      · simp only [List.modify_succ_cons, List.filter_cons_of_neg hy, hrest]

/-- The node of a draft that is started is filled if the draft has a type. -/
lemma filledNodes_withStarted {d : Drafting} {id : DraftId} {x : Draft} (hx : d.drafts[id]? = some x)
    (hunstarted : x.started = false) : ((d.withStarted id).filledNodes : Multiset SchemaNode) =
      d.filledNodes + if x.wrapper?.isSome then {x.node} else 0 := by
  have hmodify := coe_filter_modify (p := fun x => x.started && x.wrapper?.isSome)
    (f := fun x => { x with started := true }) hx (by simp [hunstarted])
  have hnodes := congrArg (Multiset.map (·.node)) hmodify
  rw [Multiset.map_add] at hnodes
  by_cases htyped : x.wrapper?.isSome = true
  · simpa [htyped, filledNodes, withStarted] using hnodes
  · simpa [htyped, filledNodes, withStarted] using hnodes

/-! ## Calls that succeed -/

/-- Where steps succeed from a state, types are filled, and what is warned of are the malformed entries of these,
besides `own` entries of a type on the way. -/
def Reporting {α : Type} (s : Setting) (own : Multiset MalformedEntry) (d : Drafting) (steps : DraftM α) : Prop :=
  ∀ ⦃a d'⦄, outcome steps d = (.ok a, d') → ∃ log, Reports s own log d d'

section Reporting

variable {α β : Type} {s : Setting} {own own' : Multiset MalformedEntry} {d : Drafting} {fuel : Nat}

lemma Reporting.bind {x : DraftM α} {f : α → DraftM β} (hx : Reporting s own d x)
    (hf : ∀ a d', outcome x d = (.ok a, d') → d'.Seated → d.store.Reads s.loader d'.store →
      Reporting s own' d' (f a)) : Reporting s (own + own') d (x >>= f) := by
  intro b d'' hok
  obtain ⟨a, d', ha, hb⟩ := outcome_bind_eq_ok hok
  obtain ⟨log, h⟩ := hx ha
  obtain ⟨log', h'⟩ := hf a d' ha h.seated h.reads hb
  exact ⟨log + log', h.trans h'⟩

/-- Steps before which nothing of the type on the way is warned of. -/
lemma Reporting.andThen {x : DraftM α} {f : α → DraftM β} (hx : Reporting s 0 d x)
    (hf : ∀ a d', outcome x d = (.ok a, d') → d'.Seated → d.store.Reads s.loader d'.store →
      Reporting s own d' (f a)) : Reporting s own d (x >>= f) := by
  have h := hx.bind hf
  rwa [zero_add] at h

lemma reporting_pure (hd : d.Seated) (a : α) : Reporting s 0 d (pure a) := by
  intro b d' hok
  obtain rfl : d = d' := congrArg Prod.snd hok
  exact ⟨0, .refl hd⟩

lemma reporting_draft (hd : d.Seated) (id : DraftId) : Reporting s 0 d (draft id) := by
  intro x d' hok
  obtain ⟨-, rfl⟩ := of_draft_eq_ok hok
  exact ⟨0, .refl hd⟩

lemma reporting_onStore {steps : StoreM α} (hd : d.Seated)
    (hreads : ∀ store, Store.Reads s.loader store (outcome steps store).2) :
    Reporting s 0 d (onStore steps) := by
  intro a d' hok
  have hquiet := (quiet_onStore steps).warnings hok
  obtain ⟨store, trace, hsteps, rfl⟩ := of_onStore_eq_ok hok
  have hstore : d.store.Reads s.loader store := outcome_leads (hreads d.store) hsteps
  exact ⟨0, .of_silent (hd.read hstore trace) hstore rfl hquiet⟩

lemma reporting_of_writes {steps : DraftM α} {type : TypeId} (hd : d.Seated) (hquiet : Quiet steps)
    (hwrites : ∀ a d', outcome steps d = (.ok a, d') → Writes s type d d') : Reporting s 0 d steps :=
  fun a d' hok => ⟨0, .of_writes hd (hwrites a d' hok) (hquiet.warnings hok)⟩

lemma reporting_declare (hd : d.Seated) {n : SchemaNode} (hn : n ∈ d.store.nodes) :
    Reporting s 0 d (declare s n) := by
  intro id d' hok
  have hadds : Adds s d d' := outcome_leads (adds_declare s n d) hok
  have hseated := hd.declare (s := s) hn
  rw [hok] at hseated
  exact ⟨0, .of_silent hseated hadds.steps.reads hadds.filledNodes_eq ((quiet_declare n).warnings hok)⟩

/-- The entries of a type on the way are warned of one after another. -/
lemma reporting_forM {f : α → DraftM PUnit} {warned : α → Option MalformedEntry} {xs : List α} (hd : d.Seated)
    (hf : ∀ a ∈ xs, ∀ e, e.Seated → d.store.Reads s.loader e.store →
      Reporting s (warned a).toList e (f a)) :
    Reporting s (xs.filterMap warned) d (xs.forM f) := by
  induction xs generalizing d with
  | nil => exact reporting_pure hd _
  | cons a xs ih =>
    have hrest : ∀ u e, outcome (f a) d = (.ok u, e) → e.Seated → d.store.Reads s.loader e.store →
        Reporting s (xs.filterMap warned) e (xs.forM f) := fun _ e _ he hreads =>
      ih he fun b hb e' he' hreads' => hf b (List.mem_cons_of_mem a hb) e' he' (hreads.trans hreads')
    have hcons : ((a :: xs).filterMap warned : Multiset MalformedEntry) =
        (warned a).toList + xs.filterMap warned := by
      cases hwarned : warned a <;> simp [hwarned]
    rw [hcons]
    exact (hf a List.mem_cons_self d hd .refl).bind hrest

end Reporting

/-! ## Filling -/

section Fill

variable {s : Setting} {d : Drafting} {fuel : Nat} {type : TypeId} {x : Draft}

/-- Filling, with some fuel, closes the account of every type that it fills. -/
def FillReports (s : Setting) (fuel : Nat) : Prop :=
  ∀ d id, d.Seated → Reporting s 0 d (fill s fuel id)

lemma reporting_drafted (hfill : FillReports s fuel) (hd : d.Seated) {n : SchemaNode} (hn : n ∈ d.store.nodes) :
    Reporting s 0 d (drafted s fuel n) :=
  (reporting_declare hd hn).andThen fun id e _ he _ => (hfill e id he).andThen fun _ _ _ he' _ =>
    reporting_draft he' id

lemma reporting_skip (hlenient : s.config.strictSchemaShapes.truthy = false) (hd : d.Seated)
    (entry : MalformedEntry) : Reporting s {entry} d (skip s entry) := by
  intro a d' hok
  rw [skip_of_lenient hlenient] at hok
  obtain rfl : { d with trace := d.trace.push (.skipped entry) } = d' := congrArg Prod.snd hok
  refine ⟨0, hd.read (s := s) .refl _, .refl, ?_, ?_, fun p hp => (Multiset.notMem_zero p hp).elim⟩
  · rw [Multiset.map_zero, add_zero]
    rfl
  · have hwarned : Trace.warnings (d.trace.push (.skipped entry)) = d.trace.warnings ++ [entry.message] :=
      Trace.warnings_push d.trace _
    show ((Trace.warnings (d.trace.push (.skipped entry)) : List String) : Multiset String) = _
    rw [hwarned, ← Multiset.coe_add, Multiset.zero_bind, add_zero, Multiset.map_singleton, Multiset.coe_singleton]

section Lenient

variable (hlenient : s.config.strictSchemaShapes.truthy = false)
include hlenient

lemma reporting_fillProperty (hfill : FillReports s fuel) (hd : d.Seated) {p : String × Entry}
    (hp : ∀ n, p.2 = .node n → n ∈ d.store.nodes) :
    Reporting s (x.node.malformedProperty? p).toList d (fillProperty s fuel type x p) := by
  obtain ⟨key, entry⟩ := p
  cases entry with
  | plain value => exact reporting_skip hlenient hd _
  | node n =>
    refine (reporting_drafted hfill hd (hp n rfl)).andThen fun y e _ he _ => ?_
    exact reporting_of_writes he (quiet_writeProperty _ _ _ _ _ y) fun _ _ hok => (of_writeProperty hok).1

lemma reporting_fillItem (hfill : FillReports s fuel) (hd : d.Seated) {p : Entry × Nat}
    (hp : ∀ n, p.1 = .node n → n ∈ d.store.nodes) :
    Reporting s (x.node.malformedItem? p).toList d (fillItem s fuel type x p) := by
  obtain ⟨entry, position⟩ := p
  cases entry with
  | plain value => exact reporting_skip hlenient hd _
  | node n =>
    refine (reporting_drafted hfill hd (hp n rfl)).andThen fun y e _ he _ => ?_
    exact reporting_of_writes he (quiet_writeItem _ _ _ y) fun _ _ hok => (of_writeItem hok).1

/-- Filling the properties of a type, from their reading on. -/
lemma of_fillProperties (hfill : FillReports s fuel) (hd : d.Seated) {ps : List (String × Entry)} {e d' : Drafting}
    (hread : outcome (onStore (Store.properties s.loader x.node)) d = (.ok ps, e))
    (hok : outcome (ps.forM (fillProperty s fuel type x)) e = (.ok ⟨⟩, d')) :
    (∃ log, Reports s (ps.filterMap x.node.malformedProperty?) log d d') ∧
      List.Forall₂ (fun p q => q.1 = p.1 ∧ Store.StoodFor s.loader d.store d'.store p.2 q.2)
        (d.store.propertyEntries x.node) ps := by
  obtain ⟨log, h⟩ := reporting_onStore hd (Store.reads_properties s.loader x.node) hread
  obtain ⟨store, trace, hproperties, rfl⟩ := of_onStore_eq_ok hread
  have hknown : ∀ p ∈ ps, ∀ n, p.2 = .node n → n ∈ store.nodes := fun p hp n hn =>
    Store.mem_nodes_of_properties hproperties hp hn
  obtain ⟨log', h'⟩ := reporting_forM h.seated (fun p hp u hu hreads =>
    reporting_fillProperty hlenient hfill hu fun n hn => hreads.nodes_subset (hknown p hp n hn)) hok
  have hall := h.trans h'
  rw [zero_add] at hall
  refine ⟨⟨_, hall⟩, (Store.of_properties_eq_ok hproperties).imp fun p q ⟨hkey, hstood⟩ => ?_⟩
  exact ⟨hkey, hstood.mono .refl h'.reads⟩

/-- Filling the items of a type, from their reading on. -/
lemma of_fillItems (hfill : FillReports s fuel) (hd : d.Seated) {is : List Entry} {e d' : Drafting}
    (hread : outcome (onStore (Store.items s.loader x.node)) d = (.ok is, e))
    (hok : outcome (is.zipIdx.forM (fillItem s fuel type x)) e = (.ok ⟨⟩, d')) :
    (∃ log, Reports s (is.zipIdx.filterMap x.node.malformedItem?) log d d') ∧
      List.Forall₂ (Store.StoodFor s.loader d.store d'.store) (d.store.itemEntries x.node) is := by
  obtain ⟨log, h⟩ := reporting_onStore hd (Store.reads_items s.loader x.node) hread
  obtain ⟨store, trace, hitems, rfl⟩ := of_onStore_eq_ok hread
  have hknown : ∀ p ∈ is.zipIdx, ∀ n, p.1 = .node n → n ∈ store.nodes := by
    intro p hp n hn
    have hmem : p.1 ∈ is := List.fst_mem_of_mem_zipIdx hp
    exact Store.mem_nodes_of_items hitems (hn ▸ hmem)
  obtain ⟨log', h'⟩ := reporting_forM h.seated (fun p hp u hu hreads =>
    reporting_fillItem hlenient hfill hu fun n hn => hreads.nodes_subset (hknown p hp n hn)) hok
  have hall := h.trans h'
  rw [zero_add] at hall
  exact ⟨⟨_, hall⟩, (Store.of_items_eq_ok hitems).imp fun e e' hstood => hstood.mono .refl h'.reads⟩

/-- A type that is filled has findings for its node, and its malformed entries among these are warned of. -/
lemma of_fillType (hfill : FillReports s fuel) (hd : d.Seated) (hx : x.node ∈ d.store.nodes) {d' : Drafting}
    (hok : outcome (fillType s fuel type x) d = (.ok ⟨⟩, d')) :
    ∃ f log, Reports s (f.malformed x.node : List MalformedEntry) log d d' ∧
      Explains s.loader d.store d'.store x.node f := by
  unfold fillType at hok
  obtain ⟨⟨⟩, d₁, hscaffold, hok⟩ := outcome_bind_eq_ok hok
  obtain ⟨ps, e₁, hreadProperties, hok⟩ := outcome_bind_eq_ok hok
  obtain ⟨⟨⟩, d₂, hfillProperties, hok⟩ := outcome_bind_eq_ok hok
  obtain ⟨is, e₂, hreadItems, hok⟩ := outcome_bind_eq_ok hok
  obtain ⟨⟨⟩, d₃, hfillItems, hsize⟩ := outcome_bind_eq_ok hok
  have hwrites₁ : Writes s type d d₁ := (of_writeScaffold hscaffold).1
  have h₁ := Reports.of_writes hd hwrites₁ ((quiet_writeScaffold _ _).warnings hscaffold)
  obtain ⟨⟨log₂, h₂⟩, hproperties⟩ := of_fillProperties hlenient hfill h₁.seated hreadProperties hfillProperties
  obtain ⟨⟨log₃, h₃⟩, hitems⟩ := of_fillItems hlenient hfill h₂.seated hreadItems hfillItems
  have hwrites₄ : Writes s type d₃ d' := (of_fillSize hsize).1
  have h₄ := Reports.of_writes h₃.seated hwrites₄ ((quiet_fillSize _ _).warnings hsize)
  have hall := ((h₁.trans h₂).trans h₃).trans h₄
  rw [zero_add, add_zero, Multiset.coe_add] at hall
  refine ⟨⟨ps, is⟩, _, hall, ?_⟩
  -- what was found for the properties and the items is brought to the last store
  have hx₁ := h₁.reads.nodes_subset hx
  have hx₂ := h₂.reads.nodes_subset hx₁
  have hbehind : d₂.store.Reads s.loader d'.store := h₃.reads.trans h₄.reads
  have hall₁ : d₁.store.Reads s.loader d'.store := h₂.reads.trans hbehind
  refine ⟨hbehind.nodes_subset hx₂, ?_, ?_⟩
  · rw [hall₁.propertyEntries_eq (h₁.seated.genuine.hasLoaded hx₁)]
    exact hproperties.imp fun _ _ ⟨hkey, hstood⟩ => ⟨hkey, hstood.mono h₁.reads hbehind⟩
  · rw [hbehind.itemEntries_eq (h₂.seated.genuine.hasLoaded hx₂)]
    exact hitems.imp fun _ _ hstood => hstood.mono (h₁.reads.trans h₂.reads) h₄.reads

/-- Filling closes the account of every type that it fills. -/
theorem reporting_fill (fuel : Nat) : FillReports s fuel := by
  induction fuel with
  | zero =>
    intro d id hd a d' hok
    simp [fill] at hok
  | succ fuel ih =>
    intro d id hd
    rw [fill_succ]
    refine (reporting_draft hd id).andThen fun x e hdraft he _ => ?_
    obtain ⟨hx, rfl⟩ := of_draft_eq_ok hdraft
    split
    · exact reporting_pure he _
    next hnot =>
    have hunstarted : x.started = false := by simpa using hnot
    have hbegun : (e.withStarted id).Seated := he.of_modify rfl rfl fun _ => rfl
    have hfilled := filledNodes_withStarted hx hunstarted
    intro a d' hok
    rw [outcome_bind_of_ok (outcome_update e id _)] at hok
    unfold fillDraft at hok
    cases hwrapper : x.wrapper? with
    | none =>
      rw [hwrapper] at hok hfilled
      obtain rfl : e.withStarted id = d' := congrArg Prod.snd hok
      exact ⟨0, hbegun, .refl, by simpa using hfilled, by simp [withStarted],
        fun p hp => (Multiset.notMem_zero p hp).elim⟩
    | some type =>
      rw [hwrapper] at hok hfilled
      obtain ⟨f, log, h, hexplains⟩ := of_fillType hlenient ih hbegun (he.held x (List.mem_of_getElem? hx)) hok
      refine ⟨(x.node, f) ::ₘ log, h.seated, h.reads, ?_, ?_, fun p hp => ?_⟩
      · rw [h.filled, hfilled, Multiset.map_cons, ← Multiset.singleton_add, ← add_assoc]
        rfl
      · rw [h.warnings, Multiset.cons_bind, zero_add]
        rfl
      · rcases Multiset.mem_cons.1 hp with rfl | hp
        · exact hexplains
        · exact h.explained p hp

lemma reporting_fillBound (hd : d.Seated) (id : DraftId) : Reporting s 0 d (do fill s (← bound s) id) := by
  intro a d' hok
  rw [outcome_bind_of_ok (outcome_bound d)] at hok
  exact reporting_fill hlenient _ d id hd hok

lemma reporting_complete (hd : d.Seated) {n : SchemaNode} (hn : n ∈ d.store.nodes) :
    Reporting s 0 d (complete s n) := by
  refine (reporting_declare hd hn).andThen fun id e _ he _ => ?_
  have hfill := (reporting_fillBound hlenient he id).andThen fun _ _ _ he' _ => reporting_pure he' id
  rwa [bind_assoc] at hfill

lemma reporting_finishOne (hd : d.Seated) (id : DraftId) : Reporting s 0 d (finishOne s id) := by
  refine (reporting_draft hd id).andThen fun x e _ he _ => ?_
  refine Reporting.andThen ?_ fun _ _ _ he' _ => reporting_fillBound hlenient he' id
  intro a d' hok
  have hquiet := (quiet_note (e := .completing x.node.uri) rfl).warnings hok
  obtain rfl : { e with trace := e.trace.push (.completing x.node.uri) } = d' := congrArg Prod.snd hok
  exact ⟨0, .of_silent (he.read (s := s) .refl _) .refl rfl hquiet⟩

lemma reporting_finishIn (hd : d.Seated) (rounds : Nat) : Reporting s 0 d (finishIn s rounds) := by
  induction rounds generalizing d with
  | zero =>
    intro a d' hok
    simp [finishIn] at hok
  | succ rounds ih =>
    rw [finishIn_succ]
    refine Reporting.andThen (fun ids d' hok => ?_) fun ids e _ he _ => ?_
    · have hsame := outcome_pending_snd d
      rw [hok] at hsame
      obtain rfl : d' = d := hsame
      exact ⟨0, .refl hd⟩
    · split
      · exact reporting_pure he _
      · refine Reporting.andThen ?_ fun _ _ _ he' _ => ih he'
        have hround : Reporting s ((ids.filterMap fun _ => none : List MalformedEntry) : Multiset MalformedEntry) e
            (ids.forM (finishOne s)) :=
          reporting_forM he fun id _ e' he' _ => reporting_finishOne hlenient he' id
        simpa using hround

/-- Nothing is left open where a pass succeeds. -/
theorem reporting_pass (hd : d.Seated) {root : SchemaNode} (hroot : root ∈ d.store.nodes) :
    Reporting s 0 d (pass s root) :=
  (reporting_complete hlenient hd hroot).andThen fun _ e _ he _ => by
    intro a d' hok
    obtain ⟨rounds, e', hbound, hrounds⟩ := outcome_bind_eq_ok hok
    obtain rfl : e = e' := congrArg Prod.snd hbound
    exact reporting_finishIn hlenient he rounds hrounds

end Lenient

end Fill

/-! ## A whole pass -/

/-- A log in which no key stands twice is told by its keys. -/
lemma exists_of_nodup_map {α β : Type} (other : β) {log : Multiset (α × β)} (h : (log.map Prod.fst).Nodup) :
    ∃ found : α → β, log = (log.map Prod.fst).map fun a => (a, found a) := by
  classical
  refine ⟨fun a => if hex : ∃ b, (a, b) ∈ log then hex.choose else other, ?_⟩
  rw [Multiset.map_map]
  conv_lhs => rw [← Multiset.map_id log]
  refine Multiset.map_congr rfl fun p hp => ?_
  have hex : ∃ b, (p.1, b) ∈ log := ⟨p.2, hp⟩
  have hsame := Multiset.inj_on_of_nodup_map h p hp (p.1, hex.choose) hex.choose_spec rfl
  simpa [hex] using hsame

section Pass

variable {s : Setting} {store : Store} {root : SchemaNode} {model : Model} {d : Drafting}

/-- No node is filled twice. -/
lemma Sound.nodup_filledNodes (h : d.Sound) : d.filledNodes.Nodup := by
  have hnodes : (d.drafts.map (·.node)).Nodup := by
    refine List.Nodup.of_map SchemaNode.uri ?_
    rw [List.map_map]
    exact h.distinct
  exact hnodes.sublist (List.filter_sublist.map _)

/-- Where every draft is started, those with a type are filled. -/
lemma filledNodes_of_started (hstarted : ∀ x ∈ d.drafts, x.started = true) :
    d.filledNodes = (d.drafts.filter (·.wrapper?.isSome)).map (·.node) := by
  unfold filledNodes
  rw [List.filter_congr fun _ hx => by rw [hstarted _ hx, Bool.true_and]]

/-- A lenient pass that succeeds warns, once each, of the properties and items that were found to be no schemas, over
all nodes with a type, and of nothing else. The strict pass from the same state comes to the same state if there are
none, and fails with the first of the warnings otherwise. -/
theorem warnings_of_pass (hlenient : s.config.strictSchemaShapes.truthy = false) (hstore : store.Intact)
    (hroot : root ∈ store.nodes) (hok : outcome (pass s root) (start store model) = (.ok ⟨⟩, d)) :
    ∃ found : SchemaNode → Findings,
      (∀ x ∈ d.drafts, x.wrapper?.isSome = true →
        Store.Finds s.loader store d.store x.node (found x.node)) ∧
      d.trace.warnings.Perm ((d.drafts.filter (·.wrapper?.isSome)).flatMap fun x =>
        ((found x.node).malformed x.node).map MalformedEntry.message) ∧
      ∀ value : Json, value.truthy = true →
        (d.trace.warnings = [] →
          outcome (pass (s.withStrictness value) root) (start store model) = (.ok ⟨⟩, d)) ∧
        ∀ message rest, d.trace.warnings = message :: rest → ∃ entry,
          (outcome (pass (s.withStrictness value) root) (start store model)).1 = .error (.malformedEntry entry) ∧
            entry.message = message := by
  obtain ⟨-, hstarted, -, hwhole⟩ := accounted_of_pass hstore.genuine hroot hok
  obtain ⟨log, hreports⟩ := reporting_pass hlenient (seated_start hstore.genuine model) hroot hok
  have hintact : d.store.Intact := hreports.reads.intact hstore (hwhole hstore.whole)
  have hsound : d.Sound := ((leads_pass root).steps hok).sound (sound_start store model)
  have hfilled : (d.filledNodes : Multiset SchemaNode) = log.map Prod.fst := by
    rw [hreports.filled]
    exact zero_add _
  obtain ⟨found, hfound⟩ : ∃ found : SchemaNode → Findings,
      log = (d.filledNodes : Multiset SchemaNode).map fun n => (n, found n) := by
    rw [hfilled]
    refine exists_of_nodup_map {} ?_
    rw [← hfilled]
    exact hsound.nodup_filledNodes
  rw [filledNodes_of_started hstarted] at hfound
  refine ⟨found, fun x hx htyped => ?_, ?_, fun value hstrict => ?_⟩
  · have hmem : (x.node, found x.node) ∈ log := by
      rw [hfound]
      refine Multiset.mem_map_of_mem (fun n => (n, found n)) (Multiset.mem_coe.2 ?_)
      exact List.mem_map_of_mem (List.mem_filter.2 ⟨hx, htyped⟩)
    have hexplains := hreports.explained _ hmem
    exact hintact.finds hexplains.held hexplains.properties hexplains.items
  · refine Multiset.coe_eq_coe.1 ?_
    rw [hreports.warnings, zero_add, hfound]
    simp [start, Trace.warnings, Multiset.coe_bind, List.flatMap_map, List.map_flatMap]
  · obtain ⟨entries, hwarned, hstops⟩ := tightens_pass hlenient hstrict root hok
    have hentries : d.trace.warnings = entries.map MalformedEntry.message := by
      simpa [start, Trace.warnings] using hwarned
    rw [hentries]
    refine ⟨fun hnone => ?_, fun message rest hfirst => ?_⟩
    · rw [List.map_eq_nil_iff.1 hnone] at hstops
      exact hstops
    · obtain ⟨entry, more, rfl, hmessage, -⟩ := List.map_eq_cons_iff.1 hfirst
      exact ⟨entry, hstops, hmessage⟩

end Pass

/-- The property that is a boolean is warned of, and refused by a strict pass. -/
theorem warnings_of_two_documents :
    Sample.last.trace.warnings = ["Skipping property 'odd' of s: True is not an object schema"] ∧
      ∃ found : SchemaNode → Findings,
        (∀ x ∈ Sample.last.drafts, x.wrapper?.isSome = true →
          Store.Finds Sample.setting.loader Sample.store Sample.last.store x.node (found x.node)) ∧
        Sample.last.trace.warnings.Perm ((Sample.last.drafts.filter (·.wrapper?.isSome)).flatMap fun x =>
          ((found x.node).malformed x.node).map MalformedEntry.message) ∧
        ∀ value : Json, value.truthy = true →
          (Sample.last.trace.warnings = [] →
            outcome (pass (Sample.setting.withStrictness value) Sample.root) (start Sample.store Sample.model) =
              (.ok ⟨⟩, Sample.last)) ∧
          ∀ message rest, Sample.last.trace.warnings = message :: rest → ∃ entry,
            (outcome (pass (Sample.setting.withStrictness value) Sample.root)
                (start Sample.store Sample.model)).1 = .error (.malformedEntry entry) ∧ entry.message = message :=
  ⟨by decide +kernel, warnings_of_pass rfl Sample.intact Sample.root_mem Sample.passes⟩

end Drafting

end SchemaAccessors
