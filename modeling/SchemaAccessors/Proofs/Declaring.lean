import SchemaAccessors.Proofs.Ledger

/-!
# What declaring does

A declaration that succeeds gives a draft for its node, and with it one for each node around it whose type is
needed as a container. The drafts are made from the inside outwards and get their types from the outside inwards,
so on the way there are drafts that wait for the type around theirs.
-/

namespace SchemaAccessors

namespace Store

/-- What a node is written in is in the store with it. -/
lemma Genuine.parent_mem {s : Store} (hs : s.Genuine) {n m : SchemaNode} (hn : n ∈ s.nodes)
    (hm : n.parent? = some m) : m ∈ s.nodes := by
  obtain ⟨load, hl, hn⟩ := mem_nodes.1 hn
  obtain ⟨members, hsurvey⟩ := hs load hl
  rw [hsurvey] at hn
  exact mem_nodes.2 ⟨load, hl, hsurvey ▸ parent_mem_nodes hn hm⟩

end Store

/-- How many nodes a node is written in. -/
def SchemaNode.depth : SchemaNode → Nat
  | .root _ => 0
  | .inside parent _ => parent.depth + 1

namespace Drafting

/-! ## What stays through a call -/

/-- What calls that succeed leave as it is: drafts keep their nodes and types, and types of drafts that were
started before keep their members, but for types that are exempt. -/
structure Keeps (s : Setting) (exempt : TypeId → Prop) (d d' : Drafting) : Prop where
  steps : Steps s d d'
  whole : d.store.Whole → d'.store.Whole
  drafts : ∀ ⦃j : DraftId⦄ ⦃x : Draft⦄, d.drafts[j]? = some x →
    ∃ y, d'.drafts[j]? = some y ∧ y.node = x.node ∧ y.type = x.type ∧ (x.started = true → y.started = true)
  types : ∀ ⦃j : DraftId⦄ ⦃x : Draft⦄ ⦃t : TypeId⦄, d.drafts[j]? = some x → x.started = true →
    x.wrapper? = some t → ¬ exempt t → d'.model.types[t]? = d.model.types[t]?

namespace Keeps

variable {s : Setting} {exempt exempt' : TypeId → Prop} {d d' d'' : Drafting}

lemma refl (d : Drafting) : Keeps s exempt d d where
  steps := .refl
  whole hwhole := hwhole
  drafts _ x hx := ⟨x, hx, rfl, rfl, id⟩
  types _ _ _ _ _ _ _ := rfl

lemma trans (h : Keeps s exempt d d') (h' : Keeps s exempt d' d'') : Keeps s exempt d d'' := by
  refine ⟨h.steps.trans h'.steps, h'.whole ∘ h.whole, fun j x hx => ?_, fun j x t hx hs ht hfree => ?_⟩
  · obtain ⟨y, hy, hnode, htype, hstarted⟩ := h.drafts hx
    obtain ⟨z, hz, hnode', htype', hstarted'⟩ := h'.drafts hy
    exact ⟨z, hz, hnode'.trans hnode, htype'.trans htype, hstarted' ∘ hstarted⟩
  · obtain ⟨y, hy, -, htype, hstarted⟩ := h.drafts hx
    have hwrapper : y.wrapper? = x.wrapper? := congrArg TypeRef.wrapper? htype
    rw [h'.types hy (hstarted hs) (hwrapper.trans ht) hfree, h.types hx hs ht hfree]

lemma mono (h : Keeps s exempt d d') (hmore : ∀ t, exempt t → exempt' t) : Keeps s exempt' d d' := by
  refine ⟨h.steps, h.whole, h.drafts, ?_⟩
  intro j x t hx hs ht hfree
  have hexempt : ¬ exempt t := fun he => hfree (hmore t he)
  exact h.types hx hs ht hexempt

lemma of_adds (h : Adds s d d') (hwhole : d.store.Whole → d'.store.Whole) (hsound : d.Sound) :
    Keeps s exempt d d' := by
  refine ⟨h.steps, hwhole, fun j x hx => ⟨x, ?_, rfl, rfl, id⟩, fun j x t hx _ ht _ => ?_⟩
  · obtain ⟨rest, hrest⟩ := h.drafts
    rw [← hrest, List.getElem?_append_left (List.getElem?_eq_some_iff.1 hx).1, hx]
  · obtain ⟨rest, hrest⟩ := h.types
    rw [← hrest, List.getElem?_append_left (hsound.typed x (List.mem_of_getElem? hx) t ht)]

lemma of_read {store : Store} (hreads : d.store.Reads s.loader store) (hwhole : d.store.Whole → store.Whole)
    (trace : Trace) : Keeps s exempt d { d with store, trace } where
  steps := .tail (.single (.read hreads)) (.record trace)
  whole := hwhole
  drafts _ x hx := ⟨x, hx, rfl, rfl, id⟩
  types _ _ _ _ _ _ _ := rfl

lemma keepsTypes (h : Keeps s exempt d d') (hrooted : d.Rooted) : d.KeepsTypes d' := by
  refine keepsTypes_of_drafts hrooted h.steps.reads fun x hx => ?_
  obtain ⟨j, hj⟩ := List.getElem?_of_mem hx
  obtain ⟨y, hy, hnode, htype, -⟩ := h.drafts hj
  exact ⟨y, List.mem_of_getElem? hy, hnode, htype⟩

end Keeps

/-! ## Whether a node gets a type -/

/-- Where it is found whether a node gets a type, the answer is right. -/
lemma of_needsType_eq_ok {s : Setting} {n : SchemaNode} {d d' : Drafting} {b : Bool}
    (h : outcome (needsType s n (.ofKinds n.kinds)) d = (.ok b, d'))
    (hn : d.store.hasLoaded n.site.document = true) :
    ∃ store trace, d' = { d with store, trace } ∧ d.store.Reads s.loader store ∧
      (d.store.Whole → store.Whole) ∧ (b = true ↔ store.GetsType n) := by
  cases hraw : RawKind.ofKinds n.kinds with
  | object =>
    rw [hraw] at h
    obtain ⟨found, u, hfound, hlast⟩ := outcome_bind_eq_ok h
    obtain ⟨store, trace, hsteps, rfl⟩ := of_onStore_eq_ok hfound
    obtain ⟨rfl, rfl⟩ : (!found.isEmpty) = b ∧ _ = d' := by
      simpa using hlast
    have hreads : d.store.Reads s.loader store :=
      outcome_leads (Store.reads_properties s.loader n d.store) hsteps
    have hlength := (Store.of_properties_eq_ok hsteps).length_eq
    refine ⟨store, trace, rfl, hreads, Store.whole_of_properties hsteps, ?_⟩
    simp only [Store.GetsType, hraw, hreads.propertyEntries_eq hn]
    rw [← List.length_pos_iff, hlength, List.length_pos_iff]
    simp
  | array | any =>
    rw [hraw] at h
    obtain ⟨rfl, rfl⟩ : true = b ∧ d = d' := by
      simpa [needsType] using h
    exact ⟨d.store, d.trace, rfl, .refl, id, by simp [Store.GetsType, hraw]⟩
  | _ =>
    rw [hraw] at h
    obtain ⟨rfl, rfl⟩ : false = b ∧ d = d' := by
      simpa [needsType] using h
    exact ⟨d.store, d.trace, rfl, .refl, id, by simp [Store.GetsType, hraw]⟩

/-! ## Declaring -/

/-- The nodes of drafts that wait for their types lie at a depth or below it. -/
def Deep (d : Drafting) (pending : List DraftId) (k : Nat) : Prop :=
  ∀ j ∈ pending, ∃ y, d.drafts[j]? = some y ∧ k ≤ y.node.depth

section Declare

variable {s : Setting} {first : Store} {root : SchemaNode} {found : String → Findings}
  {opened pending : List DraftId} {n : SchemaNode} {id : DraftId} {d d' : Drafting}

lemma Deep.mono {k : Nat} (h : d.Deep pending k) (hdrafts : d.drafts <+: d'.drafts) : d'.Deep pending k := by
  intro j hj
  obtain ⟨y, hy, hk⟩ := h j hj
  obtain ⟨z, hz, hnode, -⟩ := KeepsNodes.of_append hdrafts hy
  exact ⟨z, hz, hnode ▸ hk⟩

/-- What is asked of the search for a container: it keeps the state in order, and what the node is written in
has a draft behind it. The draft of the node is there already, and is the reason for the other. Only drafts of
the node and of what lies deeper wait meanwhile, so the container is the one that the node belongs in, if
identifiers are unambiguous. -/
def Contained (s : Setting) (first : Store) (root : SchemaNode) (found : String → Findings)
    (opened : List DraftId) (n : SchemaNode) (container : DraftM Container) : Prop :=
  ∀ ⦃pending : List DraftId⦄ ⦃d d' : Drafting⦄ ⦃c : Container⦄ ⦃i : DraftId⦄ ⦃x : Draft⦄,
    Accounted s first root found pending opened d → d.Deep pending n.depth → d.drafts[i]? = some x →
    x.node = n → d.store.GetsType n → outcome container d = (.ok c, d') →
    Accounted s first root found pending opened d' ∧ (d.store.Whole → d'.store.Whole) ∧
      (∀ m, n.parent? = some m → ∃ y ∈ d'.drafts, y.node.uri = m.uri) ∧
      (d'.store.Unambiguous → d'.Belongs s n c)

lemma of_declareIn_eq_ok {container : DraftM Container} (hadds : ∀ d, Adds s d (outcome container d).2)
    (hcontained : Contained s first root found opened n container)
    (h : Accounted s first root found pending opened d) (hdeep : d.Deep pending (n.depth + 1))
    (hn : n ∈ d.store.nodes) (hreason : d.Justified root found d.drafts.length n) (hsteps : Steps s d d')
    (hok : outcome (declareIn s n container) d = (.ok id, d')) :
    Accounted s first root found pending opened d' ∧ (d.store.Whole → d'.store.Whole) ∧
      ∃ x, d'.drafts[id]? = some x ∧ x.node.uri = n.uri ∧ (d'.store.Unambiguous → id ∉ pending) := by
  cases hl : d.registry.lookup n.uri with
  | some id? =>
    obtain ⟨id', x, rfl, hx, huri⟩ := h.sound.of_lookup hl
    rw [outcome_declareIn_of_found hl] at hok
    obtain ⟨rfl, rfl⟩ : id' = id ∧ d = d' := by
      simpa using hok
    refine ⟨h, fun hw => hw, x, hx, huri, fun hunambiguous hpending => ?_⟩
    obtain rfl : x.node = n := hunambiguous x.node (h.inOrder hx).held n hn huri
    obtain ⟨y, hy, hbelow⟩ := hdeep id' hpending
    obtain rfl : x = y := Option.some.inj (hx.symm.trans hy)
    omega
  | none =>
    rw [outcome_declareIn_of_fresh hl] at hok
    have hnew := h.withDraft hl hn hreason
    have hdraft : (d.withDraft n).drafts[d.drafts.length]? = some { node := n, raw := .ofKinds n.kinds } := by
      simp [withDraft]
    have hloaded : (d.withDraft n).store.hasLoaded n.site.document = true := h.genuine.hasLoaded hn
    have hnot : d.drafts.length ∉ pending := by
      intro hpending
      obtain ⟨y, hy, -⟩ := hdeep _ hpending
      rw [List.getElem?_eq_none le_rfl] at hy
      cases hy
    have hdeep' : (d.withDraft n).Deep (d.drafts.length :: pending) n.depth := by
      intro j hj
      rcases List.mem_cons.1 hj with rfl | hj
      · exact ⟨_, hdraft, le_rfl⟩
      · obtain ⟨y, hy, hbelow⟩ := (hdeep.mono (List.prefix_append _ _) : (d.withDraft n).Deep _ _) j hj
        exact ⟨y, hy, by omega⟩
    have hgiven := given_giveType s n container d.drafts.length (d.withDraft n)
    rw [hok] at hgiven
    cases hgiven with
    | @untyped e trace asked =>
      obtain ⟨store, trace', rfl, hreads, hwhole, hgets⟩ := of_needsType_eq_ok asked hloaded
      have hread := (hnew.read hreads trace).untyped hdraft rfl (by simpa using hgets)
      exact ⟨hread, hwhole, _, hdraft, rfl, fun _ => hnot⟩
    | @typed e e' c name trace asked contained spelled free single =>
      obtain ⟨store, trace', rfl, hreads, hwhole, hgets⟩ := of_needsType_eq_ok asked hloaded
      obtain ⟨hcontainer, hwhole', hparent, hbelongs⟩ :=
        hcontained (hnew.read hreads trace') hdeep' hdraft rfl (hgets.1 rfl) contained
      have hadded := hadds { d.withDraft n with store, trace := trace' }
      rw [contained] at hadded
      have hdraft' : e'.drafts[d.drafts.length]? = some { node := n, raw := .ofKinds n.kinds } := by
        obtain ⟨rest, hrest⟩ := hadded.drafts
        rw [← hrest]
        exact (List.getElem?_append_left (List.getElem?_eq_some_iff.1 hdraft).1).trans hdraft
      have hgets' : e'.store.GetsType n :=
        (hadded.steps.reads.getsType_iff (hreads.hasLoaded_mono hloaded)).2 (hgets.1 rfl)
      have hsound := hsteps.sound h.sound
      have htyped : Accounted s first root found pending opened
          (e'.withType d.drafts.length c name (documentation s n)) :=
        hcontainer.withType (hsound.read e'.store e'.trace) hdraft' rfl rfl hgets' hparent hbelongs
      refine ⟨htyped.read .refl trace, hwhole' ∘ hwhole, ?_⟩
      refine ⟨{ node := n, raw := .ofKinds n.kinds, wrapper? := some e'.model.types.length }, ?_, rfl, fun _ => hnot⟩
      simp [withType, hdraft']

/-- A declaration that succeeds has its draft, and the drafts that are made with it are in order. The draft is not
one of those that wait, if identifiers are unambiguous. -/
theorem of_declare_eq_ok (h : Accounted s first root found pending opened d) (hdeep : d.Deep pending (n.depth + 1))
    (hn : n ∈ d.store.nodes) (hreason : d.Justified root found d.drafts.length n)
    (hok : outcome (declare s n) d = (.ok id, d')) :
    Accounted s first root found pending opened d' ∧ (d.store.Whole → d'.store.Whole) ∧
      ∃ x, d'.drafts[id]? = some x ∧ x.node.uri = n.uri ∧ (d'.store.Unambiguous → id ∉ pending) := by
  have hsteps := (leads_declare s n).steps hok
  induction n generalizing d d' id pending with
  | root site =>
    refine of_declareIn_eq_ok (fun d => .refl d) ?_ h hdeep hn hreason hsteps hok
    intro pending e e' c i x he hbelow hx hnode hgets hc
    obtain ⟨rfl, rfl⟩ : .top s.namespaceIndex = c ∧ e = e' := by
      simpa using hc
    exact ⟨he, fun hw => hw, fun m hm => by simp [SchemaNode.parent?] at hm, fun _ => rfl⟩
  | inside parent site ih =>
    refine of_declareIn_eq_ok (adds_containerIn (adds_declare s parent)) ?_ h hdeep hn hreason hsteps hok
    intro pending e e' c i x he hbelow hx hnode hgets hc
    obtain ⟨id', e₁, hdeclare, hrest⟩ := outcome_bind_eq_ok hc
    obtain ⟨y, e₂, hdraft, hlast⟩ := outcome_bind_eq_ok hrest
    obtain ⟨hy, rfl⟩ := of_draft_eq_ok hdraft
    obtain ⟨rfl, rfl⟩ : within s y.wrapper? = c ∧ e₂ = e' := by
      cases hw : y.wrapper? <;> simpa [within, hw] using hlast
    -- the draft of the node is the reason for one of what the node is written in
    have hparent : (SchemaNode.inside parent site).parent? = some parent := rfl
    have hheld := (he.inOrder hx).held
    rw [hnode] at hheld
    have hbecause : e.Justified root found e.drafts.length parent := by
      refine .inr ⟨i, x, (List.getElem?_eq_some_iff.1 hx).1, hx, ?_, .inr ?_⟩
      · rwa [hnode]
      · rw [hnode, hparent]
    have hsteps' := (leads_declare s parent).steps hdeclare
    obtain ⟨haccounted, hwhole, z, hz, huri, hnot⟩ :=
      ih he hbelow (he.genuine.parent_mem hheld hparent) hbecause hdeclare hsteps'
    refine ⟨haccounted, hwhole, fun m hm => ⟨z, List.mem_of_getElem? hz, ?_⟩, fun hunambiguous => ?_⟩
    · obtain rfl : parent = m := Option.some.inj (hparent.symm.trans hm)
      exact huri
    · obtain rfl : y = z := Option.some.inj (hy.symm.trans hz)
      have hdeclared := (haccounted.inOrder hz).declared (hnot hunambiguous)
      exact ⟨y.type, ⟨y, List.mem_of_getElem? hz, huri, rfl, hdeclared.typed⟩, rfl⟩

end Declare

end Drafting

end SchemaAccessors
