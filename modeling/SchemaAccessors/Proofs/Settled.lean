import SchemaAccessors.Proofs.Documents

/-!
# What references lead to in the end

A reference is followed in the store of the moment, and a document that is read later may have a node under the
URI that was resolved to a place before. Where places that share an address hold the same, and names that point
to a place are those of its node, nothing of the kind happens (`Coherent`): what an entry stood for on the way is
what it stands for in the end, and no document is read to find it.
-/

namespace SchemaAccessors

namespace Store

/-- What identifiers lead to does not depend on the way: places that share an address hold the same, and a node
with a name that points to a place is what the place holds. -/
structure Coherent (s : Store) : Prop where
  addresses : ∀ p ∈ s.places, ∀ q ∈ s.places, ∀ address ∈ p.addresses, address ∈ q.addresses → p.entry = q.entry
  names : ∀ n ∈ s.nodes, ∀ name ∈ n.names, ∀ document fragment, Uri.defragment name = .ok (document, fragment) →
    (fragment = "" ∨ fragment.startsWith "/") → ∀ e, s.at? (document, Uri.pointer fragment) = some e → e = .node n

/-- Whether a place has the address that a name points to, if the name points to a place. -/
def isUnder (p : Place) (name : String) : Bool :=
  match Uri.defragment name with
  | .ok (document, fragment) =>
    !(fragment = "" || fragment.startsWith "/") || p.addresses.contains (document, Uri.pointer fragment)
  | .error _ => true

/-- Whether no address is given twice, and all names of a node that point to a place point to the node's. -/
def isCoherent (s : Store) : Bool :=
  decide (s.places.flatMap (·.addresses)).Nodup &&
    s.places.all fun p => p.entry.node?.all fun n => n.names.all (isUnder p)

variable {loader : Loader} {s t u : Store}

/-! ## What is found stays found -/

lemma Reads.places_extend (h : Reads loader s t) : s.places <+: t.places := by
  obtain ⟨rest, hrest⟩ := h.loads_extend
  exact ⟨rest.flatMap (·.survey.places), by rw [places, places, ← hrest, List.flatMap_append]⟩

lemma Reads.named?_mono (h : Reads loader s t) {uri : String} {n : SchemaNode} (hn : s.named? uri = some n) :
    t.named? uri = some n := by
  obtain ⟨rest, hrest⟩ := h.places_extend
  unfold named? at hn ⊢
  rw [← hrest, List.findSome?_append, hn, Option.some_or]

lemma of_named? {uri : String} {n : SchemaNode} (h : s.named? uri = some n) : uri ∈ n.names := by
  obtain ⟨p, -, hp⟩ := List.exists_of_findSome?_eq_some h
  simpa using (Option.filter_eq_some_iff.1 hp).2

lemma of_at? {address : Address} {e : Entry} (h : s.at? address = some e) :
    ∃ p ∈ s.places, address ∈ p.addresses ∧ p.entry = e := by
  unfold at? at h
  obtain ⟨p, hp, rfl⟩ := Option.map_eq_some_iff.1 h
  rw [List.findRev?_eq_find?_reverse] at hp
  exact ⟨p, List.mem_reverse.1 (List.mem_of_find?_eq_some hp), by simpa using List.find?_some hp, rfl⟩

lemma isSome_at? {address : Address} {p : Place} (hp : p ∈ s.places) (ha : address ∈ p.addresses) :
    ∃ e, s.at? address = some e := by
  unfold at?
  rw [List.findRev?_eq_find?_reverse]
  refine Option.isSome_iff_exists.1 ?_
  rw [Option.isSome_map, List.find?_isSome]
  exact ⟨p, List.mem_reverse.2 hp, by simpa using ha⟩

lemma Reads.at?_mono (h : Reads loader s t) (ht : t.Coherent) {address : Address} {e : Entry}
    (he : s.at? address = some e) : t.at? address = some e := by
  obtain ⟨p, hp, ha, rfl⟩ := of_at? he
  have hp' := h.places_extend.subset hp
  obtain ⟨e', he'⟩ := isSome_at? hp' ha
  obtain ⟨q, hq, ha', rfl⟩ := of_at? he'
  rw [he', ht.addresses q hq p hp' address ha' ha]

lemma eq_of_mem_addresses {places : List Place} (h : (places.flatMap (·.addresses)).Nodup) {p q : Place}
    (hp : p ∈ places) (hq : q ∈ places) {address : Address} (ha : address ∈ p.addresses)
    (ha' : address ∈ q.addresses) : p = q := by
  induction places with
  | nil => simp at hp
  | cons first places ih =>
    rw [List.flatMap_cons, List.nodup_append] at h
    obtain ⟨-, hrest, hdisjoint⟩ := h
    have hfirst {x : Place} (hx : x ∈ places) (hax : address ∈ x.addresses) : address ∉ first.addresses :=
      fun hmem => hdisjoint address hmem address (List.mem_flatMap.2 ⟨x, hx, hax⟩) rfl
    rcases List.mem_cons.1 hp with hpfirst | hprest <;> rcases List.mem_cons.1 hq with hqfirst | hqrest
    · rw [hpfirst, hqfirst]
    · exact (hfirst hqrest ha' (hpfirst ▸ ha)).elim
    · exact (hfirst hprest ha (hqfirst ▸ ha')).elim
    · exact ih hrest hprest hqrest

/-- The check is enough. -/
theorem coherent_of_isCoherent (h : s.isCoherent = true) : s.Coherent := by
  rw [isCoherent, Bool.and_eq_true, decide_eq_true_eq, List.all_eq_true] at h
  obtain ⟨hdistinct, hunder⟩ := h
  constructor
  · intro p hp q hq address ha ha'
    rw [eq_of_mem_addresses hdistinct hp hq ha ha']
  · intro n hn name hname document fragment hsplit hpointer e he
    obtain ⟨p, hp, hpn⟩ := List.mem_filterMap.1 hn
    obtain ⟨q, hq, ha, rfl⟩ := of_at? he
    have hall := hunder p hp
    rw [hpn, Option.all_some, List.all_eq_true] at hall
    have hname' := hall name hname
    simp only [isUnder, hsplit, Bool.or_eq_true] at hname'
    have hmem : (document, Uri.pointer fragment) ∈ p.addresses := by
      rcases hname' with hnot | hmem
      · rw [Bool.not_eq_true', Bool.or_eq_false_iff, decide_eq_false_iff_not] at hnot
        rcases hpointer with hempty | hslash
        · exact (hnot.1 hempty).elim
        · exact (Bool.eq_false_iff.1 hnot.2 hslash).elim
      · simpa using hmem
    rw [← eq_of_mem_addresses hdistinct hp hq hmem ha]
    cases hentry : p.entry with
    | plain value => simp [hentry, Entry.node?] at hpn
    | node m =>
      rw [hentry] at hpn
      rw [Option.some.inj hpn]

/-! ## Following in the end -/

/-- A document that is not refused has a place under its own URI. -/
lemma exists_place_of_root {uri : String} {members : Members}
    (h : (survey (.root uri) (.obj members)).halt? = none) :
    ∃ p ∈ (survey (.root uri) (.obj members)).places, (uri, []) ∈ p.addresses := by
  cases henter : (Position.root uri).enter members with
  | error cause => simp [survey_refused henter] at h
  | ok entered =>
    obtain ⟨n, addresses⟩ := entered
    refine ⟨⟨[], addresses, .node n⟩, ?_, ?_⟩
    · rw [survey_entered henter]
      exact Survey.places_andThen_left List.mem_cons_self
    · obtain ⟨-, base, -, ⟨-, haddresses⟩ | ⟨-, haddresses⟩⟩ := Position.enter_spec henter <;>
        simp [haddresses, Position.root]

/-- Where loading succeeds, something has the address of the document. -/
lemma exists_at?_of_load {document : Json} {uri : String} (huri : Uri.defragment uri = .ok (uri, "")) {e : Entry}
    (h : outcome (load document uri) s = (.ok e, t)) : ∃ root, t.at? (uri, []) = some root := by
  have hloading := loading_load huri document s
  rw [h] at hloading
  cases hloading with
  | known used found => exact ⟨e, found⟩
  | loaded new object ends begins =>
    subst object
    obtain ⟨p, hp, haddress⟩ := exists_place_of_root ends
    refine isSome_at? (p := p) ?_ haddress
    simp [places, hp]

lemma exists_at?_of_ensureLoaded {uri : String} (huri : Uri.defragment uri = .ok (uri, ""))
    (h : outcome (ensureLoaded loader uri) s = (.ok ⟨⟩, t)) : ∃ root, t.at? (uri, []) = some root := by
  unfold ensureLoaded at h
  rw [outcome_bind_of_ok (outcome_get s)] at h
  split at h
  · obtain ⟨document, s', hfetch, hrest⟩ := outcome_bind_eq_ok h
    obtain ⟨e, t', hload, hlast⟩ := outcome_bind_eq_ok hrest
    obtain rfl : t' = t := congrArg Prod.snd hlast
    exact exists_at?_of_load huri hload
  · next hloaded =>
    obtain rfl : s = t := congrArg Prod.snd h
    exact Option.ne_none_iff_exists'.1 (by simpa using hloaded)

/-- What a URI was resolved to is what it is resolved to in the end, and then nothing is read. -/
lemma resolve_settled {uri : String} {e : Entry} (ht : t.Coherent)
    (h : outcome (resolve loader uri) s = (.ok e, u)) (hut : Reads loader u t) :
    outcome (resolve loader uri) t = (.ok e, t) := by
  have hsu : Reads loader s u := outcome_leads (reads_resolve loader uri s) h
  have settled_of_named {n : SchemaNode} (hn : t.named? uri = some n) (he : e = .node n) :
      outcome (resolve loader uri) t = (.ok e, t) := by
    unfold resolve
    rw [outcome_bind_of_ok (outcome_get t), hn, he]
    rfl
  unfold resolve at h
  rw [outcome_bind_of_ok (outcome_get s)] at h
  split at h
  · next n hn =>
    obtain ⟨rfl, rfl⟩ : .node n = e ∧ s = u := by
      simpa using h
    exact settled_of_named (hut.named?_mono hn) rfl
  obtain ⟨parts, s', hsplit, h⟩ := outcome_bind_eq_ok h
  obtain ⟨⟨⟩, t', hload, h⟩ := outcome_bind_eq_ok h
  rw [outcome_bind_of_ok (outcome_get t')] at h
  have hparts : Uri.defragment uri = .ok parts := by
    cases hd : Uri.defragment uri with
    | error fault => simp [outcome_split, hd, Except.mapError] at hsplit
    | ok found => simpa [outcome_split, hd, Except.mapError, eq_comm] using congrArg Prod.fst hsplit
  have hdocument : Uri.defragment parts.1 = .ok (parts.1, "") := Uri.defragment_of_defragment hparts
  obtain ⟨first, hfirst⟩ := exists_at?_of_ensureLoaded hdocument hload
  dsimp only at h
  split at h
  · next e' he =>
    obtain ⟨rfl, rfl⟩ : e' = e ∧ t' = u := by
      simpa using h
    split at he
    · next hpointer =>
      -- a place: in the end it is still the one, and a node that has the name is what it holds
      have hplace := hut.at?_mono ht he
      cases hn : t.named? uri with
      | some n =>
        refine settled_of_named hn ?_
        obtain ⟨p, hp, hpn⟩ := holds_of_named? hn
        exact ht.names n (mem_nodes_of_place hp hpn) uri (of_named? hn) parts.1 parts.2 hparts hpointer e' hplace
      | none =>
        have hloaded : outcome (ensureLoaded loader parts.1) t = (.ok ⟨⟩, t) := by
          unfold ensureLoaded
          rw [outcome_bind_of_ok (outcome_get t), hut.at?_mono ht hfirst]
          rfl
        unfold resolve
        rw [outcome_bind_of_ok (outcome_get t), hn, outcome_bind_of_ok (outcome_split_of_ok hparts t),
          outcome_bind_of_ok hloaded, outcome_bind_of_ok (outcome_get t)]
        dsimp only
        rw [if_pos hpointer, hplace]
        rfl
    · obtain ⟨n, hn, rfl⟩ := Option.map_eq_some_iff.1 he
      exact settled_of_named (hut.named?_mono hn) rfl
  · simp at h

/-- What following led to is what it leads to in the end, with any bound that is no smaller. -/
lemma follow_settled {fuel fuel' : Nat} {seen : List String} {e e' : Entry} (ht : t.Coherent) (hle : fuel ≤ fuel')
    (h : outcome (follow loader fuel seen e) s = (.ok e', u)) (hut : Reads loader u t) :
    outcome (follow loader fuel' seen e) t = (.ok e', t) := by
  induction fuel generalizing fuel' seen e s with
  | zero =>
    cases e with
    | plain value =>
      rw [follow_plain] at h ⊢
      exact congrArg (·, t) (congrArg Prod.fst h)
    | node n =>
      cases hr : n.ref? with
      | none =>
        rw [follow_of_no_ref hr] at h ⊢
        exact congrArg (·, t) (congrArg Prod.fst h)
      | some ref =>
        rw [follow_zero hr] at h
        simp at h
  | succ fuel ih =>
    obtain ⟨fuel', rfl⟩ : ∃ k, fuel' = k + 1 := ⟨fuel' - 1, by omega⟩
    cases e with
    | plain value =>
      rw [follow_plain] at h ⊢
      exact congrArg (·, t) (congrArg Prod.fst h)
    | node n =>
      cases hr : n.ref? with
      | none =>
        rw [follow_of_no_ref hr] at h ⊢
        exact congrArg (·, t) (congrArg Prod.fst h)
      | some ref =>
        rw [follow_succ hr] at h ⊢
        split at h
        · simp at h
        next hnew =>
        obtain ⟨target, s₁, htarget, h₁⟩ := outcome_bind_eq_ok h
        obtain ⟨entry, s₂, hentry, h₂⟩ := outcome_bind_eq_ok h₁
        have hreads : Reads loader s₂ u := by
          have hfollow := reads_follow loader fuel (n.uri :: seen) entry s₂
          rwa [h₂] at hfollow
        have htarget' : outcome (ExceptT.mk (pure ((Uri.join n.base ref).mapError .badUri)) : StoreM String) t =
            (.ok target, t) := congrArg (·, t) (congrArg Prod.fst htarget)
        rw [if_neg hnew, outcome_bind_of_ok htarget',
          outcome_bind_of_ok (resolve_settled ht hentry (hreads.trans hut))]
        exact ih (by omega) h₂

/-- What an entry stood for on the way is what it stands for in the end. -/
theorem StoodFor.deref_eq {e e' : Entry} (h : StoodFor loader s t e e') (ht : t.Coherent) :
    outcome (deref loader e) t = (.ok e', t) := by
  obtain ⟨u, v, hu, hd, hv⟩ := h
  have huv : Reads loader u v := by
    have hderef := reads_deref loader e u
    rwa [hd] at hderef
  unfold deref at hd ⊢
  rw [outcome_bind_of_ok (outcome_get _)] at hd ⊢
  refine follow_settled ht ?_ hd hv
  have hut : Reads loader u t := huv.trans hv
  have hweight := hut.weight_le
  unfold capacity
  omega

lemma outcome_mapM_settled {α β : Type} {g : α → StoreM β} {as : List α} {bs : List β}
    (h : List.Forall₂ (fun a b => outcome (g a) t = (.ok b, t)) as bs) : outcome (as.mapM g) t = (.ok bs, t) := by
  induction h with
  | nil => rfl
  | cons hab _ ih =>
    rw [List.mapM_cons, outcome_bind_of_ok hab, outcome_bind_of_ok ih]
    rfl

/-- What properties were found to stand for is what they stand for in the end. -/
theorem properties_settled {n : SchemaNode} {found : List (String × Entry)} (ht : t.Coherent)
    (h : List.Forall₂ (fun p q => q.1 = p.1 ∧ StoodFor loader s t p.2 q.2) (t.propertyEntries n) found) :
    outcome (properties loader n) t = (.ok found, t) := by
  rw [outcome_properties]
  refine outcome_mapM_settled (h.imp fun p q ⟨hkey, hstood⟩ => ?_)
  rw [outcome_bind_of_ok (hstood.deref_eq ht), ← hkey]
  rfl

/-- What items were found to stand for is what they stand for in the end. -/
theorem items_settled {n : SchemaNode} {found : List Entry} (ht : t.Coherent)
    (h : List.Forall₂ (StoodFor loader s t) (t.itemEntries n) found) :
    outcome (items loader n) t = (.ok found, t) := by
  rw [outcome_items]
  exact outcome_mapM_settled (h.imp fun e e' hstood => hstood.deref_eq ht)

end Store

end SchemaAccessors
