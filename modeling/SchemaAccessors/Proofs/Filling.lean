import SchemaAccessors.Proofs.Members

/-!
# What filling does

Filling a type goes through its properties and items, and fills what they stand for on the way, types inside one
another as deep as the references go. A draft is marked as started before anything else, so references that lead
back to it pass it by; and a type that is being filled is left alone by whatever is filled on the way. Both
together make a type come out with the members of its own node and nothing else.
-/

namespace SchemaAccessors

namespace Drafting

/-! ## Calls that succeed -/

/-- What a call that succeeds comes to: the state agrees with the ledger again, in which findings of drafts that
were started before are as they were. -/
structure Advance (s : Setting) (first : Store) (root : SchemaNode) (opened : List DraftId)
    (found : String → Findings) (d : Drafting) (found' : String → Findings) (d' : Drafting) : Prop where
  accounted : Accounted s first root found' [] opened d'
  agrees : ∀ x ∈ d.drafts, x.started = true → found' x.node.uri = found x.node.uri
  keeps : Keeps s (fun _ => False) d d'

lemma Advance.trans {s : Setting} {first : Store} {root : SchemaNode} {opened : List DraftId}
    {found found' found'' : String → Findings} {d d' d'' : Drafting}
    (h : Advance s first root opened found d found' d') (h' : Advance s first root opened found' d' found'' d'') :
    Advance s first root opened found d found'' d'' := by
  refine ⟨h'.accounted, fun x hx hs => ?_, h.keeps.trans h'.keeps⟩
  obtain ⟨j, hj⟩ := List.getElem?_of_mem hx
  obtain ⟨y, hy, hnode, -, hstarted⟩ := h.keeps.drafts hj
  have hagrees := h'.agrees y (List.mem_of_getElem? hy) (hstarted hs)
  rw [hnode] at hagrees
  rw [hagrees, h.agrees x hx hs]

/-- What is asked of filling with some fuel: where it succeeds, it keeps the agreement. -/
def Fills (s : Setting) (first : Store) (root : SchemaNode) (fuel : Nat) : Prop :=
  ∀ ⦃opened : List DraftId⦄ ⦃found : String → Findings⦄ ⦃d d' : Drafting⦄ ⦃id : DraftId⦄,
    Accounted s first root found [] opened d → outcome (fill s fuel id) d = (.ok ⟨⟩, d') →
    ∃ found', Advance s first root opened found d found' d'

section Calls

variable {s : Setting} {first : Store} {root : SchemaNode} {opened : List DraftId} {found : String → Findings}
  {fuel : Nat} {n : SchemaNode} {d d' : Drafting}

lemma advance_declare {id : DraftId} (h : Accounted s first root found [] opened d) (hn : n ∈ d.store.nodes)
    (hreason : d.Justified root found d.drafts.length n) (hok : outcome (declare s n) d = (.ok id, d')) :
    Advance s first root opened found d found d' ∧ ∃ x, d'.drafts[id]? = some x ∧ x.node.uri = n.uri := by
  have hdeep : d.Deep [] (n.depth + 1) := fun j hj => (List.not_mem_nil hj).elim
  obtain ⟨haccounted, hwhole, x, hx, huri, -⟩ := of_declare_eq_ok h hdeep hn hreason hok
  have hadds : Adds s d d' := outcome_leads (adds_declare s n d) hok
  exact ⟨⟨haccounted, fun _ _ _ => rfl, .of_adds hadds hwhole h.sound⟩, x, hx, huri⟩

/-- A node that is drafted where all others are declared to the end has the type that its draft tells. -/
lemma of_drafted_eq_ok (hfill : Fills s first root fuel) {y : Draft}
    (h : Accounted s first root found [] opened d) (hn : n ∈ d.store.nodes)
    (hreason : d.Justified root found d.drafts.length n) (hok : outcome (drafted s fuel n) d = (.ok y, d')) :
    ∃ found', Advance s first root opened found d found' d' ∧ d'.TypeOf n y.type := by
  obtain ⟨id, d₁, hdeclare, h₁⟩ := outcome_bind_eq_ok hok
  obtain ⟨⟨⟩, d₂, hfilled, h₂⟩ := outcome_bind_eq_ok h₁
  obtain ⟨hy, rfl⟩ := of_draft_eq_ok h₂
  obtain ⟨hdeclared, x, hx, huri⟩ := advance_declare h hn hreason hdeclare
  obtain ⟨found', hadvance⟩ := hfill hdeclared.accounted hfilled
  obtain ⟨y', hy', hnode, -⟩ := hadvance.keeps.drafts hx
  obtain rfl : y = y' := Option.some.inj (hy.symm.trans hy')
  refine ⟨found', hdeclared.trans hadvance, y, List.mem_of_getElem? hy, by rw [hnode, huri], rfl, ?_⟩
  exact ((hadvance.accounted.inOrder hy).declared List.not_mem_nil).typed

end Calls

/-! ## A type on the way -/

/-- A draft is started and has a type. -/
structure Begun (d : Drafting) (id : DraftId) (x : Draft) (type : TypeId) : Prop where
  draft : d.drafts[id]? = some x
  started : x.started = true
  typed : x.wrapper? = some type

/-- A type on the way of being filled, since the state `start`: its draft is open, the ledger has the findings
`f` for it and is elsewhere as it was, and the type holds the methods written so far. -/
structure Underway (s : Setting) (first : Store) (root : SchemaNode) (opened : List DraftId) (id : DraftId)
    (x : Draft) (type : TypeId) (before : String → Findings) (start : Drafting) (f : Findings)
    (methods : List Method) (d : Drafting) : Prop where
  accounted : ∃ found, Accounted s first root found [] (id :: opened) d ∧ found x.node.uri = f ∧
    ∀ y ∈ start.drafts, y.started = true → y.node.uri ≠ x.node.uri → found y.node.uri = before y.node.uri
  keeps : Keeps s (· = type) start d
  holds : d.Holds type x.raw methods

namespace Underway

variable {s : Setting} {first : Store} {root : SchemaNode} {opened : List DraftId} {id : DraftId} {x : Draft}
  {type : TypeId} {before : String → Findings} {start : Drafting} {f : Findings} {methods methods' : List Method}
  {d d' : Drafting}

/-- The draft of a type on the way. -/
lemma exists_begun (h : Underway s first root opened id x type before start f methods d)
    (hbegun : start.Begun id x type) : ∃ y, d.Begun id y type ∧ y.node = x.node := by
  obtain ⟨y, hy, hnode, htype, hs⟩ := h.keeps.drafts hbegun.draft
  exact ⟨y, ⟨hy, hs hbegun.started, (congrArg TypeRef.wrapper? htype).trans hbegun.typed⟩, hnode⟩

lemma rooted (h : Underway s first root opened id x type before start f methods d) : d.Rooted := by
  obtain ⟨found, haccounted, -⟩ := h.accounted
  exact haccounted.rooted

lemma sound (h : Underway s first root opened id x type before start f methods d) : d.Sound := by
  obtain ⟨found, haccounted, -⟩ := h.accounted
  exact haccounted.sound

/-- Writing on the type. -/
lemma write (h : Underway s first root opened id x type before start f methods d)
    (hbegun : start.Begun id x type) (hwrites : Writes s type d d') (hholds : d'.Holds type x.raw methods') :
    Underway s first root opened id x type before start f methods' d' := by
  obtain ⟨found, haccounted, hfound, hbefore⟩ := h.accounted
  obtain ⟨y, hy, -⟩ := h.exists_begun hbegun
  refine ⟨⟨found, ?_, hfound, hbefore⟩, h.keeps.trans hwrites.keeps, hholds⟩
  exact haccounted.write hy.draft hy.started hy.typed List.mem_cons_self hwrites.steps hwrites.store
    hwrites.drafts hwrites.types

/-- Reading on the way. -/
lemma read (h : Underway s first root opened id x type before start f methods d) {store : Store}
    (hreads : d.store.Reads s.loader store) (hwhole : d.store.Whole → store.Whole) (trace : Trace) :
    Underway s first root opened id x type before start f methods { d with store, trace } := by
  obtain ⟨found, haccounted, hfound, hbefore⟩ := h.accounted
  exact ⟨⟨found, haccounted.read hreads trace, hfound, hbefore⟩, h.keeps.trans (.of_read hreads hwhole trace),
    h.holds⟩

/-- Drafting what was found for the node leaves the type as it is. -/
lemma visit {fuel : Nat} {n : SchemaNode} {y : Draft} (hfill : Fills s first root fuel)
    (h : Underway s first root opened id x type before start f methods d) (hbegun : start.Begun id x type)
    (hn : n ∈ d.store.nodes) (hfound : n ∈ f.nodes) (hok : outcome (drafted s fuel n) d = (.ok y, d')) :
    Underway s first root opened id x type before start f methods d' ∧ Keeps s (· = type) d d' ∧
      d'.TypeOf n y.type := by
  obtain ⟨found, haccounted, hf, hbefore⟩ := h.accounted
  obtain ⟨z, hz, hnode⟩ := h.exists_begun hbegun
  have hgets : d.store.GetsType z.node :=
    ((haccounted.inOrder hz.draft).declared List.not_mem_nil).typed.1 (by rw [hz.typed]; rfl)
  have hreason : d.Justified root found d.drafts.length n := by
    refine .inr ⟨id, z, (List.getElem?_eq_some_iff.1 hz.draft).1, hz.draft, hgets, .inl ⟨hz.started, ?_⟩⟩
    rwa [hnode, hf]
  obtain ⟨found', hadvance, htypeOf⟩ := of_drafted_eq_ok hfill haccounted hn hreason hok
  have hkeeps : Keeps s (· = type) d d' := hadvance.keeps.mono fun _ hfalse => hfalse.elim
  refine ⟨⟨⟨found', hadvance.accounted, ?_, fun w hw hws hne => ?_⟩, h.keeps.trans hkeeps, ?_⟩, hkeeps, htypeOf⟩
  · rw [← hnode, hadvance.agrees z (List.mem_of_getElem? hz.draft) hz.started, hnode, hf]
  · obtain ⟨j, hj⟩ := List.getElem?_of_mem hw
    obtain ⟨w', hw', hwnode, -, hws'⟩ := h.keeps.drafts hj
    have hagrees := hadvance.agrees w' (List.mem_of_getElem? hw') (hws' hws)
    rw [hwnode] at hagrees
    rw [hagrees, hbefore w hw hws hne]
  · obtain ⟨ty, hty, hhas⟩ := h.holds
    exact ⟨ty, (hadvance.keeps.types hz.draft hz.started hz.typed not_false).trans hty, hhas⟩

/-- The members that a loop writes for its entries, one entry after another. -/
lemma forM {β : Type} {step : β → DraftM PUnit} {R : Drafting → β → List Method → Prop} {entries : List β}
    (hmono : ∀ ⦃e e' b new⦄, R e b new → e.KeepsTypes e' → R e' b new)
    (hstep : ∀ ⦃e e' b methods⦄, b ∈ entries → Keeps s (· = type) d e →
      Underway s first root opened id x type before start f methods e → outcome (step b) e = (.ok ⟨⟩, e') →
      ∃ new, R e' b new ∧ Underway s first root opened id x type before start f (methods ++ new) e' ∧
        Keeps s (· = type) e e')
    (h : Underway s first root opened id x type before start f methods d)
    (hok : outcome (entries.forM step) d = (.ok ⟨⟩, d')) :
    ∃ news, List.Forall₂ (R d') entries news ∧
      Underway s first root opened id x type before start f (methods ++ news.flatten) d' ∧
      Keeps s (· = type) d d' := by
  have hloop := outcome_forM_induction (P := fun done e => ∃ news, List.Forall₂ (R e) done news ∧
      Underway s first root opened id x type before start f (methods ++ news.flatten) e ∧
      Keeps s (· = type) d e) [] ?_ ⟨[], .nil, by simpa using h, .refl d⟩ hok
  · simpa using hloop
  rintro done b e e' hb ⟨news, hnews, hunder, hkeeps⟩ hone
  obtain ⟨new, hnew, hunder', hkeeps'⟩ := hstep hb hkeeps hunder hone
  refine ⟨news ++ [new], ?_, ?_, hkeeps.trans hkeeps'⟩
  · have hold := hnews.imp fun b new hR => hmono hR (hkeeps'.keepsTypes hunder.rooted)
    exact List.rel_append hold (.cons hnew .nil)
  · simpa using hunder'

/-- Passing over an entry. -/
lemma skip {entry : MalformedEntry} (h : Underway s first root opened id x type before start f methods d)
    (hbegun : start.Begun id x type) (hok : outcome (Drafting.skip s entry) d = (.ok ⟨⟩, d')) :
    Underway s first root opened id x type before start f (methods ++ []) d' ∧ Keeps s (· = type) d d' := by
  obtain ⟨trace, rfl⟩ := of_skip hok
  have hwrites : Writes s type d { d with trace } := .of_trace trace
  refine ⟨h.write hbegun hwrites ?_, hwrites.keeps⟩
  rw [List.append_nil]
  exact h.holds.of_trace trace

/-- The members for one property. -/
lemma fillProperty {fuel : Nat} {p : String × Entry} (hfill : Fills s first root fuel)
    (h : Underway s first root opened id x type before start f methods d) (hbegun : start.Begun id x type)
    (hraw : x.raw = x.node.raw) (hn : ∀ n, p.2 = .node n → n ∈ d.store.nodes ∧ n ∈ f.nodes)
    (hok : outcome (Drafting.fillProperty s fuel type x p) d = (.ok ⟨⟩, d')) :
    ∃ new, d'.PropertyMembers x.node p new ∧
      Underway s first root opened id x type before start f (methods ++ new) d' ∧ Keeps s (· = type) d d' := by
  obtain ⟨key, entry⟩ := p
  cases entry with
  | plain value =>
    obtain ⟨hunder, hkeeps⟩ := h.skip hbegun hok
    exact ⟨[], .plain key value, hunder, hkeeps⟩
  | node n =>
    obtain ⟨y, e, hdrafted, hwrite⟩ := outcome_bind_eq_ok hok
    obtain ⟨hunder, hkeeps, htypeOf⟩ := h.visit hfill hbegun (hn n rfl).1 (hn n rfl).2 hdrafted
    obtain ⟨hwrites, suffix, hholds⟩ := of_writeProperty (s := s) hwrite
    have htypes := hwrites.keeps.keepsTypes hunder.rooted
    refine ⟨_, .node key suffix (htypes htypeOf), ?_, hkeeps.trans hwrites.keeps⟩
    rw [← hraw]
    exact hunder.write hbegun hwrites (hholds (htypeOf.getterStem_eq hunder.sound) _ hunder.holds)

/-- The members for one item. -/
lemma fillItem {fuel : Nat} {p : Entry × Nat} (hfill : Fills s first root fuel)
    (h : Underway s first root opened id x type before start f methods d) (hbegun : start.Begun id x type)
    (hraw : x.raw = x.node.raw) (hn : ∀ n, p.1 = .node n → n ∈ d.store.nodes ∧ n ∈ f.nodes)
    (hok : outcome (Drafting.fillItem s fuel type x p) d = (.ok ⟨⟩, d')) :
    ∃ new, d'.ItemMembers x.node p.1 new ∧
      Underway s first root opened id x type before start f (methods ++ new) d' ∧ Keeps s (· = type) d d' := by
  obtain ⟨entry, position⟩ := p
  cases entry with
  | plain value =>
    obtain ⟨hunder, hkeeps⟩ := h.skip hbegun hok
    exact ⟨[], .plain value, hunder, hkeeps⟩
  | node n =>
    obtain ⟨y, e, hdrafted, hwrite⟩ := outcome_bind_eq_ok hok
    obtain ⟨hunder, hkeeps, htypeOf⟩ := h.visit hfill hbegun (hn n rfl).1 (hn n rfl).2 hdrafted
    obtain ⟨hwrites, suffix, hholds⟩ := of_writeItem (s := s) hwrite
    have htypes := hwrites.keeps.keepsTypes hunder.rooted
    refine ⟨_, .node suffix (htypes htypeOf), ?_, hkeeps.trans hwrites.keeps⟩
    rw [← hraw]
    exact hunder.write hbegun hwrites (hholds (htypeOf.getterStem_eq hunder.sound) _ hunder.holds)

/-- The members for all properties, from their reading on. -/
lemma fillProperties {fuel : Nat} {ps : List (String × Entry)} {e : Drafting} (hfill : Fills s first root fuel)
    (h : Underway s first root opened id x type before start f methods d) (hbegun : start.Begun id x type)
    (hraw : x.raw = x.node.raw) (hf : f.properties = ps)
    (hread : outcome (onStore (Store.properties s.loader x.node)) d = (.ok ps, e))
    (hok : outcome (ps.forM (Drafting.fillProperty s fuel type x)) e = (.ok ⟨⟩, d')) :
    List.Forall₂ (fun p q => q.1 = p.1 ∧ Store.StoodFor s.loader d.store d'.store p.2 q.2)
        (d.store.propertyEntries x.node) ps ∧
      ∃ news, List.Forall₂ (d'.PropertyMembers x.node) ps news ∧
        Underway s first root opened id x type before start f (methods ++ news.flatten) d' ∧
        Keeps s (· = type) d d' := by
  obtain ⟨store, trace, hproperties, rfl⟩ := of_onStore_eq_ok hread
  have hreads : d.store.Reads s.loader store :=
    outcome_leads (Store.reads_properties s.loader x.node d.store) hproperties
  have hknown : ∀ p ∈ ps, ∀ n, p.2 = .node n → n ∈ store.nodes ∧ n ∈ f.nodes := by
    intro p hp n hn
    refine ⟨Store.mem_nodes_of_properties hproperties hp hn, Findings.mem_nodes.2 (.inl ⟨p, hf ▸ hp, ?_⟩)⟩
    rw [hn]
    rfl
  have hunder := h.read hreads (Store.whole_of_properties hproperties) trace
  obtain ⟨news, hnews, hunder', hkeeps⟩ := hunder.forM (R := fun e p new => e.PropertyMembers x.node p new)
    (fun _ _ _ _ h htypes => h.mono htypes)
    (fun e e' p methods hp hkeeps hunder hone => hunder.fillProperty hfill hbegun hraw
      (fun n hn => (hknown p hp n hn).imp_left fun hheld => hkeeps.steps.reads.nodes_subset hheld) hone) hok
  refine ⟨?_, news, hnews, hunder', ?_⟩
  · refine (Store.of_properties_eq_ok hproperties).imp fun p q ⟨hkey, hstood⟩ => ⟨hkey, ?_⟩
    exact hstood.mono .refl hkeeps.steps.reads
  · exact (Keeps.of_read hreads (Store.whole_of_properties hproperties) trace).trans hkeeps

/-- The members for all items, from their reading on. -/
lemma fillItems {fuel : Nat} {is : List Entry} {e : Drafting} (hfill : Fills s first root fuel)
    (h : Underway s first root opened id x type before start f methods d) (hbegun : start.Begun id x type)
    (hraw : x.raw = x.node.raw) (hf : f.items = is)
    (hread : outcome (onStore (Store.items s.loader x.node)) d = (.ok is, e))
    (hok : outcome (is.zipIdx.forM (Drafting.fillItem s fuel type x)) e = (.ok ⟨⟩, d')) :
    List.Forall₂ (Store.StoodFor s.loader d.store d'.store) (d.store.itemEntries x.node) is ∧
      ∃ news, List.Forall₂ (d'.ItemMembers x.node) is news ∧
        Underway s first root opened id x type before start f (methods ++ news.flatten) d' ∧
        Keeps s (· = type) d d' := by
  obtain ⟨store, trace, hitems, rfl⟩ := of_onStore_eq_ok hread
  have hreads : d.store.Reads s.loader store := outcome_leads (Store.reads_items s.loader x.node d.store) hitems
  have hknown : ∀ p ∈ is.zipIdx, ∀ n, p.1 = .node n → n ∈ store.nodes ∧ n ∈ f.nodes := by
    intro p hp n hn
    have hmem : p.1 ∈ is := List.fst_mem_of_mem_zipIdx hp
    rw [hn] at hmem
    exact ⟨Store.mem_nodes_of_items hitems hmem, Findings.mem_nodes.2 (.inr ⟨.node n, hf ▸ hmem, rfl⟩)⟩
  have hunder := h.read hreads (Store.whole_of_items hitems) trace
  obtain ⟨news, hnews, hunder', hkeeps⟩ := hunder.forM
    (R := fun e (p : Entry × Nat) new => e.ItemMembers x.node p.1 new) (fun _ _ _ _ h htypes => h.mono htypes)
    (fun e e' p methods hp hkeeps hunder hone => hunder.fillItem hfill hbegun hraw
      (fun n hn => (hknown p hp n hn).imp_left fun hheld => hkeeps.steps.reads.nodes_subset hheld) hone) hok
  refine ⟨?_, news, ?_, hunder', ?_⟩
  · refine (Store.of_items_eq_ok hitems).imp fun e e' hstood => ?_
    exact hstood.mono .refl hkeeps.steps.reads
  · rw [← List.zipIdx_map_fst 0 is]
    exact List.forall₂_map_left_iff.2 hnews
  · exact (Keeps.of_read hreads (Store.whole_of_items hitems) trace).trans hkeeps

end Underway

/-! ## A type from beginning to end -/

section Fill

variable {s : Setting} {first : Store} {root : SchemaNode} {opened : List DraftId} {id : DraftId} {x : Draft}
  {type : TypeId} {found : String → Findings} {start d d' : Drafting} {fuel : Nat}

/-- Filling a type, with what is found on the way: the type gets the members that the findings ask for. -/
theorem of_fillType_eq_ok (opened : List DraftId) (hfill : Fills s first root fuel)
    (hbegun : start.Begun id x type) (hraw : x.raw = x.node.raw)
    (hbare : ∃ t, start.model.types[type]? = some t ∧ t.Bare)
    (hok : outcome (fillType s fuel type x) start = (.ok ⟨⟩, d')) :
    ∃ f : Findings, ∀ found : String → Findings, found x.node.uri = f →
      Accounted s first root found [] (id :: opened) start →
      ∃ methods, Underway s first root opened id x type found start f methods d' ∧
        ∀ t, d'.model.types[type]? = some t → Filled s.loader first d' x.node t f := by
  unfold fillType at hok
  obtain ⟨⟨⟩, d₁, hscaffold, hok⟩ := outcome_bind_eq_ok hok
  obtain ⟨ps, e₁, hreadProperties, hok⟩ := outcome_bind_eq_ok hok
  obtain ⟨⟨⟩, d₂, hfillProperties, hok⟩ := outcome_bind_eq_ok hok
  obtain ⟨is, e₂, hreadItems, hok⟩ := outcome_bind_eq_ok hok
  obtain ⟨⟨⟩, d₃, hfillItems, hsize⟩ := outcome_bind_eq_ok hok
  refine ⟨⟨ps, is⟩, fun found hfound haccounted => ?_⟩
  -- the scaffold
  obtain ⟨hwrites₁, hholds₁⟩ := of_writeScaffold (s := s) hscaffold
  have haccounted₁ : Accounted s first root found [] (id :: opened) d₁ :=
    haccounted.write hbegun.draft hbegun.started hbegun.typed List.mem_cons_self hwrites₁.steps hwrites₁.store
      hwrites₁.drafts hwrites₁.types
  have hunder₁ : Underway s first root opened id x type found start ⟨ps, is⟩ [] d₁ :=
    ⟨⟨found, haccounted₁, hfound, fun _ _ _ _ => rfl⟩, hwrites₁.keeps, hholds₁ hbare⟩
  -- the members, and what they are written for
  obtain ⟨hstood₂, mss, hmss, hunder₂, hkeeps₂⟩ :=
    hunder₁.fillProperties hfill hbegun hraw rfl hreadProperties hfillProperties
  obtain ⟨hstood₃, nss, hnss, hunder₃, hkeeps₃⟩ :=
    hunder₂.fillItems hfill hbegun hraw rfl hreadItems hfillItems
  obtain ⟨hwrites₄, hholds₄⟩ := of_fillSize (s := s) hsize
  have hunder₄ := hunder₃.write hbegun hwrites₄ (hholds₄ _ hraw hunder₃.holds)
  refine ⟨_, hunder₄, fun t ht => ?_⟩
  -- it is as the last state has it
  obtain ⟨y, hy, hnode⟩ := hunder₁.exists_begun hbegun
  have hloaded : d₁.store.hasLoaded x.node.site.document = true := by
    rw [← hnode]
    exact hunder₁.rooted y (List.mem_of_getElem? hy.draft)
  have hlater₃ : Keeps s (· = type) d₃ d' := hwrites₄.keeps
  have hlater₂ : Keeps s (· = type) d₂ d' := hkeeps₃.trans hlater₃
  have hreads₂ : d₁.store.Reads s.loader d₂.store := hkeeps₂.steps.reads
  obtain ⟨t', ht', hhas⟩ := hunder₄.holds
  obtain rfl : t = t' := Option.some.inj (ht.symm.trans ht')
  refine ⟨?_, ?_, mss, nss, ?_, ?_, ?_⟩
  · rw [(hkeeps₂.trans hlater₂).steps.reads.propertyEntries_eq hloaded]
    refine hstood₂.imp fun p q ⟨hkey, hstood⟩ => ⟨hkey, ?_⟩
    exact hstood.mono haccounted₁.reads hlater₂.steps.reads
  · rw [hlater₂.steps.reads.itemEntries_eq (hreads₂.hasLoaded_mono hloaded)]
    exact hstood₃.imp fun e e' hstood => hstood.mono (haccounted₁.reads.trans hreads₂) hlater₃.steps.reads
  · have htypes := hlater₂.keepsTypes hunder₂.rooted
    exact hmss.imp fun p new h => h.mono htypes
  · have htypes := hlater₃.keepsTypes hunder₃.rooted
    exact hnss.imp fun e new h => h.mono htypes
  · rw [← hraw]
    simpa using hhas

lemma getElem?_withStarted (d : Drafting) (id : DraftId) {j : DraftId} {y : Draft} (hy : d.drafts[j]? = some y) :
    (d.withStarted id).drafts[j]? = some (if id = j then { y with started := true } else y) := by
  simp only [withStarted, List.getElem?_modify, hy, Option.map_eq_map, Option.map_some]

lemma keeps_withStarted (hx : d.drafts[id]? = some x) (hunstarted : x.started = false) (exempt : TypeId → Prop) :
    Keeps s exempt d (d.withStarted id) := by
  refine ⟨.single (.start hx hunstarted), fun hw => hw, fun j y hy => ?_, fun _ _ _ _ _ _ _ => rfl⟩
  refine ⟨_, getElem?_withStarted d id hy, ?_, ?_, ?_⟩
  · split <;> rfl
  · split <;> rfl
  · intro hs
    split
    · rfl
    · exact hs

/-- Filling a draft for the first time, where it has a type. -/
lemma advance_of_begin (hfill : Fills s first root fuel) (h : Accounted s first root found [] opened d)
    (hx : d.drafts[id]? = some x) (hunstarted : x.started = false) (htyped : x.wrapper? = some type)
    (hok : outcome (fillType s fuel type x) (d.withStarted id) = (.ok ⟨⟩, d')) :
    ∃ found', Advance s first root opened found d found' d' := by
  have hbegun : (d.withStarted id).Begun id { x with started := true } type := by
    refine ⟨?_, rfl, htyped⟩
    rw [getElem?_withStarted d id hx, if_pos rfl]
  have hraw : x.raw = x.node.raw := h.sound.raw x (List.mem_of_getElem? hx)
  obtain ⟨f, hf⟩ := of_fillType_eq_ok (x := { x with started := true }) opened hfill hbegun hraw
    ((h.inOrder hx).bare hunstarted type htyped) hok
  -- no other draft has findings under the URI of this one
  have hother {j : DraftId} {y : Draft} (hy : d.drafts[j]? = some y) (hs : y.started = true) :
      y.node.uri ≠ x.node.uri := by
    intro huri
    obtain rfl := h.sound.eq_of_uri hy hx huri
    obtain rfl : x = y := Option.some.inj (hx.symm.trans hy)
    simp [hunstarted] at hs
  have hrefound := h.refind (Function.update found x.node.uri f) fun y hy hs => by
    obtain ⟨j, hj⟩ := List.getElem?_of_mem hy
    exact Function.update_of_ne (hother hj hs) _ _
  obtain ⟨methods, hunder, hfilled⟩ :=
    hf _ (Function.update_self _ _ _) (hrefound.withStarted hx hunstarted)
  obtain ⟨found', haccounted, hfound, hbefore⟩ := hunder.accounted
  obtain ⟨y, hy, hnode⟩ := hunder.exists_begun hbegun
  refine ⟨found', haccounted.close fun z hz t ht => ?_, fun z hz hs => ?_, ?_⟩
  · obtain rfl : y = z := Option.some.inj (hy.draft.symm.trans hz)
    obtain rfl : type = t := Option.some.inj (hy.typed.symm.trans ht)
    obtain ⟨ty, hty, -⟩ := hunder.holds
    refine ⟨ty, hty, ?_⟩
    rw [hnode, hfound]
    exact hfilled ty hty
  · obtain ⟨j, hj⟩ := List.getElem?_of_mem hz
    obtain ⟨w, hw, hwnode, -, hws⟩ := (keeps_withStarted (s := s) hx hunstarted fun _ => False).drafts hj
    have hne := hother hj hs
    rw [← hwnode] at hne ⊢
    rw [hbefore w (List.mem_of_getElem? hw) (hws hs) hne]
    exact Function.update_of_ne hne _ _
  · have hkeeps := (keeps_withStarted hx hunstarted (· = type)).trans hunder.keeps
    refine ⟨hkeeps.steps, hkeeps.whole, hkeeps.drafts, fun j z t hz hs ht _ => hkeeps.types hz hs ht ?_⟩
    rintro rfl
    obtain rfl := h.sound.owner hz hx ht htyped
    obtain rfl : x = z := Option.some.inj (hx.symm.trans hz)
    simp [hunstarted] at hs

/-- Filling keeps the agreement with a ledger, however deep it goes. -/
theorem fills (s : Setting) (first : Store) (root : SchemaNode) (fuel : Nat) : Fills s first root fuel := by
  induction fuel with
  | zero =>
    intro opened found d d' id h hok
    simp [fill] at hok
  | succ fuel ih =>
    intro opened found d d' id h hok
    rw [fill_succ] at hok
    obtain ⟨x, e, hdraft, hrest⟩ := outcome_bind_eq_ok hok
    obtain ⟨hx, rfl⟩ := of_draft_eq_ok hdraft
    split at hrest
    · obtain rfl : e = d' := congrArg Prod.snd hrest
      exact ⟨found, h, fun _ _ _ => rfl, .refl e⟩
    next hnot =>
    have hunstarted : x.started = false := by simpa using hnot
    rw [outcome_bind_of_ok (outcome_update e id _)] at hrest
    unfold fillDraft at hrest
    split at hrest
    · next huntyped =>
      obtain rfl : e.withStarted id = d' := congrArg Prod.snd hrest
      have hself := getElem?_withStarted e id hx
      rw [if_pos rfl] at hself
      refine ⟨found, (h.withStarted hx hunstarted).close fun y hy t ht => ?_, fun _ _ _ => rfl,
        keeps_withStarted hx hunstarted _⟩
      obtain rfl : { x with started := true } = y := Option.some.inj (hself.symm.trans hy)
      simp [huntyped] at ht
    · next type htyped =>
      exact advance_of_begin ih h hx hunstarted htyped hrest

end Fill

/-! ## A whole pass -/

section Pass

variable {s : Setting} {first : Store} {root : SchemaNode} {opened : List DraftId} {found : String → Findings}
  {d d' : Drafting}

lemma advance_complete {n : SchemaNode} {id : DraftId} (h : Accounted s first root found [] opened d)
    (hn : n ∈ d.store.nodes) (hreason : d.Justified root found d.drafts.length n)
    (hok : outcome (complete s n) d = (.ok id, d')) :
    ∃ found', Advance s first root opened found d found' d' ∧
      ∃ x, d'.drafts[id]? = some x ∧ x.node.uri = n.uri := by
  obtain ⟨id', e, hdeclare, hrest⟩ := outcome_bind_eq_ok hok
  obtain ⟨fuel, e', hbound, hrest'⟩ := outcome_bind_eq_ok hrest
  obtain ⟨⟨⟩, e'', hfill, hlast⟩ := outcome_bind_eq_ok hrest'
  obtain rfl : e = e' := congrArg Prod.snd hbound
  obtain ⟨rfl, rfl⟩ : id' = id ∧ e'' = d' := by
    simpa using hlast
  obtain ⟨hadvance, x, hx, huri⟩ := advance_declare h hn hreason hdeclare
  obtain ⟨found', hadvance'⟩ := fills s first root fuel hadvance.accounted hfill
  obtain ⟨y, hy, hnode, -⟩ := hadvance'.keeps.drafts hx
  exact ⟨found', hadvance.trans hadvance', y, hy, by rw [hnode, huri]⟩

lemma advance_finishOne {id : DraftId} (h : Accounted s first root found [] opened d)
    (hok : outcome (finishOne s id) d = (.ok ⟨⟩, d')) :
    ∃ found', Advance s first root opened found d found' d' := by
  obtain ⟨x, e, hdraft, hrest⟩ := outcome_bind_eq_ok hok
  obtain ⟨-, rfl⟩ := of_draft_eq_ok hdraft
  rw [outcome_bind_of_ok (outcome_note e _)] at hrest
  obtain ⟨fuel, e', hbound, hfill⟩ := outcome_bind_eq_ok hrest
  obtain rfl : _ = e' := congrArg Prod.snd hbound
  have hnoted := h.read .refl (e.trace.push (.completing x.node.uri))
  obtain ⟨found', hadvance⟩ := fills s first root fuel hnoted hfill
  exact ⟨found', hadvance.accounted, hadvance.agrees, (Keeps.of_read .refl (fun hw => hw) _).trans hadvance.keeps⟩

lemma advance_finishIn {rounds : Nat} (h : Accounted s first root found [] opened d)
    (hok : outcome (finishIn s rounds) d = (.ok ⟨⟩, d')) :
    ∃ found', Advance s first root opened found d found' d' := by
  induction rounds generalizing found d with
  | zero => simp [finishIn] at hok
  | succ rounds ih =>
    rw [finishIn_succ, outcome_bind_of_ok (outcome_pending h.sound)] at hok
    split at hok
    · obtain rfl : d = d' := congrArg Prod.snd hok
      exact ⟨found, h, fun _ _ _ => rfl, .refl d⟩
    · obtain ⟨⟨⟩, e, hloop, hrest⟩ := outcome_bind_eq_ok hok
      have hround := outcome_forM_induction
        (P := fun _ u => ∃ found', Advance s first root opened found d found' u) []
        (fun _ id u u' _ hu hone => by
          obtain ⟨found', hadvance⟩ := hu
          obtain ⟨found'', hadvance'⟩ := advance_finishOne hadvance.accounted hone
          exact ⟨found'', hadvance.trans hadvance'⟩)
        ⟨found, h, fun _ _ _ => rfl, .refl d⟩ hloop
      obtain ⟨found', hadvance⟩ := hround
      obtain ⟨found'', hadvance'⟩ := ih hadvance.accounted hrest
      exact ⟨found'', hadvance.trans hadvance'⟩

/-- In a state without drafts there is nothing to account for. -/
lemma accounted_start {store : Store} (hstore : store.Genuine) (model : Model) :
    Accounted s store root found [] [] (start store model) := by
  refine ⟨sound_start store model, .refl, hstore, fun j x hx => ?_⟩
  simp [start] at hx

end Pass

/-- A pass that succeeds keeps the agreement with a ledger, and leaves every draft started. -/
theorem Accounted.of_pass {s : Setting} {first : Store} {root : SchemaNode} {found : String → Findings}
    {d d' : Drafting} (h : Accounted s first root found [] [] d) (hroot : root ∈ d.store.nodes)
    (hok : outcome (pass s root) d = (.ok ⟨⟩, d')) :
    (∃ found', Accounted s first root found' [] [] d') ∧ (∀ x ∈ d'.drafts, x.started = true) ∧
      (∃ x ∈ d'.drafts, x.node.uri = root.uri) ∧ (d.store.Whole → d'.store.Whole) := by
  have hstarted := started_of_pass h.sound hok
  obtain ⟨id, e, hcomplete, hfinish⟩ := outcome_bind_eq_ok hok
  obtain ⟨rounds, e', hbound, hrounds⟩ := outcome_bind_eq_ok hfinish
  obtain rfl : e = e' := congrArg Prod.snd hbound
  obtain ⟨found', hadvance, x, hx, huri⟩ := advance_complete h hroot (.inl rfl) hcomplete
  obtain ⟨found'', hadvance'⟩ := advance_finishIn hadvance.accounted hrounds
  have hall := hadvance.trans hadvance'
  obtain ⟨y, hy, hnode, -⟩ := hadvance'.keeps.drafts hx
  exact ⟨⟨found'', hall.accounted⟩, hstarted, ⟨y, List.mem_of_getElem? hy, by rw [hnode, huri]⟩, hall.keeps.whole⟩

/-- A pass that succeeds leaves every draft started, and agrees with a ledger of what was found on the way. -/
theorem accounted_of_pass {s : Setting} {store : Store} {root : SchemaNode} {model : Model} {d : Drafting}
    (hstore : store.Genuine) (hroot : root ∈ store.nodes)
    (hok : outcome (pass s root) (start store model) = (.ok ⟨⟩, d)) :
    (∃ found, Accounted s store root found [] [] d) ∧ (∀ x ∈ d.drafts, x.started = true) ∧
      (∃ x ∈ d.drafts, x.node.uri = root.uri) ∧ (store.Whole → d.store.Whole) := by
  have hbegin : Accounted s store root (fun _ => {}) [] [] (start store model) := accounted_start hstore model
  exact hbegin.of_pass hroot hok

end Drafting

end SchemaAccessors
