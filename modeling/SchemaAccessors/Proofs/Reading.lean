import SchemaAccessors.Proofs.Defragment
import SchemaAccessors.Proofs.Outcome
import SchemaAccessors.Proofs.Survey
import SchemaAccessors.Schema.Store

/-!
# Reading documents on demand

Resolving a reference may load a document, and nothing else changes a store on the way. `Read` is that one
change, and `Reads` what any number of them lead to. What follows holds of every store that is read into: what
was there stays where it was, what is found is in the store, and a store without a refused document stays
without one for as long as resolving succeeds.
-/

namespace SchemaAccessors

namespace Store

/-- The nodes of a store. -/
def nodes (s : Store) : List SchemaNode :=
  s.places.filterMap (·.entry.node?)

lemma mem_nodes {s : Store} {n : SchemaNode} : n ∈ s.nodes ↔ ∃ load ∈ s.loads, n ∈ load.survey.nodes := by
  simp only [nodes, places, Survey.nodes, List.mem_filterMap, List.mem_flatMap]
  constructor
  · rintro ⟨p, ⟨load, hl, hp⟩, hn⟩
    exact ⟨load, hl, p, hp, hn⟩
  · rintro ⟨load, hl, p, hp, hn⟩
    exact ⟨p, ⟨load, hl, hp⟩, hn⟩

lemma mem_nodes_of_place {s : Store} {p : Place} {n : SchemaNode} (hp : p ∈ s.places) (hn : p.entry = .node n) :
    n ∈ s.nodes :=
  List.mem_filterMap.2 ⟨p, hp, by rw [hn]; rfl⟩

/-- One document is read: the loader supplies it, and the store has none of its URI. -/
inductive Read (loader : Loader) : Store → Store → Prop
  | document {s : Store} {uri : String} {members : Members}
      (supplied : loader.fetch uri = .ok (.obj members)) (fresh : s.hasLoaded uri = false) :
      Read loader s ⟨s.loads ++ [⟨uri, survey (.root uri) (.obj members)⟩]⟩

/-- Documents are read one after another. -/
abbrev Reads (loader : Loader) : Store → Store → Prop :=
  Relation.ReflTransGen (Read loader)

/-! ## What stays -/

lemma Reads.loads_extend {loader : Loader} {s t : Store} (h : Reads loader s t) : s.loads <+: t.loads := by
  induction h with
  | refl => exact List.prefix_refl _
  | tail _ step ih =>
    cases step
    exact ih.trans (List.prefix_append _ _)

lemma Reads.nodes_subset {loader : Loader} {s t : Store} (h : Reads loader s t) : s.nodes ⊆ t.nodes := by
  intro n hn
  obtain ⟨load, hl, hn⟩ := mem_nodes.1 hn
  exact mem_nodes.2 ⟨load, h.loads_extend.subset hl, hn⟩

lemma Reads.hasLoaded_mono {loader : Loader} {s t : Store} (h : Reads loader s t) {uri : String}
    (hs : s.hasLoaded uri = true) : t.hasLoaded uri = true := by
  rw [hasLoaded, List.any_eq_true] at hs ⊢
  obtain ⟨load, hl, huri⟩ := hs
  exact ⟨load, h.loads_extend.subset hl, huri⟩

lemma Reads.weight_le {loader : Loader} {s t : Store} (h : Reads loader s t) : s.weight ≤ t.weight := by
  obtain ⟨rest, hrest⟩ := h.loads_extend
  simp only [weight, places, ← hrest, List.flatMap_append, List.length_append]
  omega

/-! ## Where entries come from -/

/-- An entry is in a store if a place of the store holds it. -/
def Holds (s : Store) (e : Entry) : Prop :=
  ∃ p ∈ s.places, p.entry = e

lemma Reads.holds {loader : Loader} {s t : Store} (h : Reads loader s t) {e : Entry} (he : s.Holds e) :
    t.Holds e := by
  obtain ⟨p, hp, rfl⟩ := he
  obtain ⟨rest, hrest⟩ := h.loads_extend
  refine ⟨p, ?_, rfl⟩
  rw [places, ← hrest, List.flatMap_append]
  exact List.mem_append_left _ hp

lemma Holds.mem_nodes {s : Store} {n : SchemaNode} (h : s.Holds (.node n)) : n ∈ s.nodes := by
  obtain ⟨p, hp, hn⟩ := h
  exact mem_nodes_of_place hp hn

lemma holds_of_mem_nodes {s : Store} {n : SchemaNode} (h : n ∈ s.nodes) : s.Holds (.node n) := by
  obtain ⟨⟨path, addresses, e⟩, hp, hn⟩ := List.mem_filterMap.1 h
  cases e with
  | node m =>
    obtain rfl : m = n := Option.some.inj hn
    exact ⟨_, hp, rfl⟩
  | plain value => cases hn

lemma holds_of_at? {s : Store} {address : Address} {e : Entry} (h : s.at? address = some e) : s.Holds e := by
  unfold at? at h
  obtain ⟨p, hp, rfl⟩ := Option.map_eq_some_iff.1 h
  rw [List.findRev?_eq_find?_reverse] at hp
  exact ⟨p, List.mem_reverse.1 (List.mem_of_find?_eq_some hp), rfl⟩

lemma holds_of_named? {s : Store} {uri : String} {n : SchemaNode} (h : s.named? uri = some n) :
    s.Holds (.node n) := by
  obtain ⟨p, hp, hn⟩ := List.exists_of_findSome?_eq_some h
  refine ⟨p, hp, ?_⟩
  cases he : p.entry <;> simp_all [Entry.node?]

/-- What a child is: the first document of the URI of its node has a place for it, and did not halt there. -/
lemma child?_eq_some {s : Store} {n : SchemaNode} {keys : List String} {e : Entry} :
    s.child? n keys = some e ↔ ∃ load, s.loads.find? (·.uri = n.site.document) = some load ∧
      load.survey.halt?.any ((n.site.path ++ keys).isPrefixOf ·.path) = false ∧
      ∃ p, load.survey.places.find? (·.path = n.site.path ++ keys) = some p ∧ p.entry = e := by
  unfold child?
  cases hl : s.loads.find? (·.uri = n.site.document) with
  | none => simp
  | some load =>
    cases hh : load.survey.halt?.any ((n.site.path ++ keys).isPrefixOf ·.path) <;> simp [hh]

lemma holds_of_child? {s : Store} {n : SchemaNode} {keys : List String} {e : Entry}
    (h : s.child? n keys = some e) : s.Holds e := by
  obtain ⟨load, hl, -, p, hp, he⟩ := child?_eq_some.1 h
  exact ⟨p, List.mem_flatMap.2 ⟨load, List.mem_of_find?_eq_some hl, List.mem_of_find?_eq_some hp⟩, he⟩

/-- Reading leaves the children of a node of the store alone. -/
lemma Reads.child?_eq {loader : Loader} {s t : Store} (h : Reads loader s t) {n : SchemaNode}
    (hn : s.hasLoaded n.site.document = true) (keys : List String) : t.child? n keys = s.child? n keys := by
  obtain ⟨rest, hrest⟩ := h.loads_extend
  obtain ⟨load, hl⟩ := Option.isSome_iff_exists.1 (show
    (s.loads.find? (·.uri = n.site.document)).isSome by simpa [hasLoaded] using hn)
  have ht : t.loads.find? (·.uri = n.site.document) = some load := by
    rw [← hrest, List.find?_append, hl, Option.some_or]
  simp only [child?, hl, ht]

/-! ## Loading, resolving and following -/

lemma outcome_split (uri : String) (s : Store) :
    outcome (split uri) s = ((Uri.defragment uri).mapError .badUri, s) := rfl

lemma outcome_split_of_ok {uri : String} {parts : String × String} (h : Uri.defragment uri = .ok parts)
    (s : Store) : outcome (split uri) s = (.ok parts, s) := by
  rw [outcome_split, h]
  rfl

/-- What loading a document under a URI comes to, by what is surveyed of it. Under a URI that is in use, it is the root
that is there, if there is one. Else a value that is no object is refused, and an object is taken down with what was
surveyed, and given if that is all of it. -/
inductive Loading (surveyed : Survey) (s : Store) (uri : String) (document : Json) :
    Except Failure Entry × Store → Prop
  | known {root : Entry} (used : s.hasLoaded uri = true) (found : s.at? (uri, []) = some root) :
      Loading surveyed s uri document (.ok root, s)
  | lost (used : s.hasLoaded uri = true) (missing : s.at? (uri, []) = none) :
      Loading surveyed s uri document (.error .lostRoot, s)
  | refused (new : s.hasLoaded uri = false) (plain : ∀ ms, document ≠ .obj ms) :
      Loading surveyed s uri document (.error (.notAnObject uri document), s)
  | halted {ms : Members} {halt : Halt} (new : s.hasLoaded uri = false) (object : document = .obj ms)
      (halts : surveyed.halt? = some halt) :
      Loading surveyed s uri document (.error halt.cause, ⟨s.loads ++ [⟨uri, surveyed⟩]⟩)
  | loaded {ms : Members} {root : Place} {rest : List Place} (new : s.hasLoaded uri = false)
      (object : document = .obj ms) (ends : surveyed.halt? = none) (begins : surveyed.places = root :: rest) :
      Loading surveyed s uri document (.ok root.entry, ⟨s.loads ++ [⟨uri, surveyed⟩]⟩)

lemma loading_loadWith (surveyed : String → Survey) {document : Json} {source uri fragment : String}
    (hsplit : Uri.defragment source = .ok (uri, fragment))
    (hbegins : ∀ ms, document = .obj ms → (surveyed uri).halt? = none →
      ∃ root rest, (surveyed uri).places = root :: rest) (s : Store) :
    Loading (surveyed uri) s uri document (outcome (loadWith surveyed document source) s) := by
  unfold loadWith
  rw [outcome_bind_of_ok (outcome_split_of_ok hsplit s), outcome_bind_of_ok (outcome_get s)]
  dsimp only
  by_cases hused : s.hasLoaded uri = true
  · rw [if_pos hused]
    cases hroot : s.at? (uri, []) with
    | none => exact .lost hused hroot
    | some root => exact .known hused hroot
  · rw [if_neg hused]
    have hnew : s.hasLoaded uri = false := Bool.eq_false_iff.2 hused
    cases document with
    | obj ms =>
      dsimp only
      rw [outcome_bind_of_ok (outcome_set s _)]
      cases hhalt : (surveyed uri).halt? with
      | some halt => exact .halted hnew rfl hhalt
      | none =>
        obtain ⟨root, rest, hplaces⟩ := hbegins ms rfl hhalt
        rw [hplaces]
        exact .loaded hnew rfl hhalt hplaces
    | _ => exact .refused hnew nofun

lemma loading_load {source uri fragment : String} (hsplit : Uri.defragment source = .ok (uri, fragment))
    (document : Json) (s : Store) :
    Loading (survey (.root uri) document) s uri document (outcome (load document source) s) := by
  refine loading_loadWith (fun uri => survey (.root uri) document) hsplit (fun ms hms hhalt => ?_) s
  subst hms
  exact exists_places_eq_cons hhalt

/-- Nothing is loaded under what is no URI. -/
lemma outcome_load_of_fault {source : String} {fault : Uri.Fault} (hsplit : Uri.defragment source = .error fault)
    (document : Json) (s : Store) : outcome (load document source) s = (.error (.badUri fault), s) := by
  unfold load loadWith
  rw [outcome_bind_of_error (by rw [outcome_split, hsplit]; rfl)]

/-- Under a URI that is in use, any document is the one that has its address. -/
lemma outcome_load_of_used {source uri fragment : String} {s : Store}
    (hsplit : Uri.defragment source = .ok (uri, fragment)) (hused : s.hasLoaded uri = true) (document : Json) :
    outcome (load document source) s = ((s.at? (uri, [])).elim (.error .lostRoot) .ok, s) := by
  have hloading := loading_load hsplit document s
  generalize outcome (load document source) s = r at hloading
  cases hloading with
  | known used found => rw [found, Option.elim_some]
  | lost used missing => rw [missing, Option.elim_none]
  | refused new | halted new | loaded new =>
    rw [hused] at new
    cases new

/-- Loading a document that the loader supplies is reading it, unless the store has one of its URI. -/
lemma reads_load {loader : Loader} {document : Json} {uri : String}
    (huri : Uri.defragment uri = .ok (uri, "")) (hdocument : loader.fetch uri = .ok document) (s : Store) :
    Reads loader s (outcome (load document uri) s).2 := by
  have hloading := loading_load huri document s
  generalize outcome (load document uri) s = r at hloading
  cases hloading with
  | halted new object halts =>
    subst object
    exact .single (.document hdocument new)
  | loaded new object ends begins =>
    subst object
    exact .single (.document hdocument new)
  | _ => exact .refl

/-- No document of the store was refused: each was surveyed to its end. -/
def Whole (s : Store) : Prop :=
  ∀ load ∈ s.loads, load.survey.halt? = none

/-- Where loading succeeds, the store has the root, and no document was refused. -/
lemma of_load_eq_ok {document : Json} {uri : String} (huri : Uri.defragment uri = .ok (uri, ""))
    {s t : Store} {e : Entry} (h : outcome (load document uri) s = (.ok e, t)) :
    t.Holds e ∧ (s.Whole → t.Whole) := by
  have hloading := loading_load huri document s
  rw [h] at hloading
  cases hloading with
  | known used found => exact ⟨holds_of_at? found, id⟩
  | @loaded ms root rest new object ends begins =>
    refine ⟨⟨root, ?_, rfl⟩, fun hs l hl => ?_⟩
    · simp [places, begins]
    · rcases List.mem_append.1 hl with hl | hl
      · exact hs l hl
      · rw [List.mem_singleton.1 hl]
        exact ends

lemma reads_ensureLoaded {loader : Loader} {uri : String} (huri : Uri.defragment uri = .ok (uri, ""))
    (s : Store) : Reads loader s (outcome (ensureLoaded loader uri) s).2 := by
  unfold ensureLoaded
  rw [outcome_bind_of_ok (outcome_get s)]
  split
  · cases hf : loader.fetch uri with
    | error e =>
      rw [outcome_bind_of_error (outcome_mk_pure _ _)]
    | ok document =>
      rw [outcome_bind_of_ok (outcome_mk_pure _ _)]
      exact outcome_bind_leads .trans (reads_load huri hf s) fun _ t _ => .refl
  · exact .refl

lemma whole_of_ensureLoaded {loader : Loader} {uri : String} (huri : Uri.defragment uri = .ok (uri, ""))
    {s t : Store} (h : outcome (ensureLoaded loader uri) s = (.ok ⟨⟩, t)) (hs : s.Whole) : t.Whole := by
  unfold ensureLoaded at h
  rw [outcome_bind_of_ok (outcome_get s)] at h
  split at h
  · obtain ⟨document, s', hfetch, hrest⟩ := outcome_bind_eq_ok h
    obtain ⟨e, t', hload, hlast⟩ := outcome_bind_eq_ok hrest
    obtain rfl : s = s' := congrArg Prod.snd hfetch
    obtain rfl : t' = t := congrArg Prod.snd hlast
    exact (of_load_eq_ok huri hload).2 hs
  · obtain rfl : s = t := by
      simpa using h
    exact hs

/-- Resolving only reads. -/
theorem reads_resolve (loader : Loader) (uri : String) (s : Store) :
    Reads loader s (outcome (resolve loader uri) s).2 := by
  unfold resolve
  rw [outcome_bind_of_ok (outcome_get s)]
  split
  · exact .refl
  · cases hsplit : Uri.defragment uri with
    | error fault =>
      rw [outcome_bind_of_error (by rw [outcome_split, hsplit]; rfl)]
    | ok parts =>
      rw [outcome_bind_of_ok (outcome_split_of_ok hsplit s)]
      have hdocument : Uri.defragment parts.1 = .ok (parts.1, "") := Uri.defragment_of_defragment hsplit
      refine outcome_bind_leads .trans (reads_ensureLoaded hdocument s) fun _ t _ => ?_
      rw [outcome_bind_of_ok (outcome_get t)]
      dsimp only
      split <;> exact .refl

/-- Where resolving succeeds, what is found is in the store, and no document was refused on the way. -/
theorem of_resolve_eq_ok {loader : Loader} {uri : String} {s t : Store} {e : Entry}
    (h : outcome (resolve loader uri) s = (.ok e, t)) : t.Holds e ∧ (s.Whole → t.Whole) := by
  unfold resolve at h
  rw [outcome_bind_of_ok (outcome_get s)] at h
  split at h
  · next n hn =>
    obtain ⟨rfl, rfl⟩ : .node n = e ∧ s = t := by
      simpa using h
    exact ⟨holds_of_named? hn, id⟩
  · obtain ⟨parts, s', hsplit, h⟩ := outcome_bind_eq_ok h
    obtain ⟨⟨⟩, t', hload, h⟩ := outcome_bind_eq_ok h
    rw [outcome_bind_of_ok (outcome_get t')] at h
    have hwhole : s.Whole → t'.Whole := by
      cases hd : Uri.defragment uri with
      | error fault => simp [outcome_split, hd, Except.mapError] at hsplit
      | ok found =>
        obtain ⟨rfl, rfl⟩ : found = parts ∧ s = s' := by
          simpa [outcome_split, hd, Except.mapError] using hsplit
        have hdocument : Uri.defragment found.1 = .ok (found.1, "") := Uri.defragment_of_defragment hd
        exact whole_of_ensureLoaded hdocument hload
    dsimp only at h
    split at h
    · next e' he =>
      obtain ⟨rfl, rfl⟩ : e' = e ∧ t' = t := by
        simpa using h
      refine ⟨?_, hwhole⟩
      split at he
      · exact holds_of_at? he
      · obtain ⟨n, hn, rfl⟩ := Option.map_eq_some_iff.1 he
        exact holds_of_named? hn
    · simp at h

/-! ### Following references -/

lemma follow_plain (loader : Loader) (fuel : Nat) (seen : List String) (value : Json) :
    follow loader fuel seen (.plain value) = pure (.plain value) := by
  rw [follow.eq_def]

lemma follow_of_no_ref {loader : Loader} {fuel : Nat} {seen : List String} {n : SchemaNode}
    (h : n.ref? = none) : follow loader fuel seen (.node n) = pure (.node n) := by
  rw [follow.eq_def]
  simp only [h]

lemma follow_zero {loader : Loader} {seen : List String} {n : SchemaNode} {ref : String}
    (h : n.ref? = some ref) : follow loader 0 seen (.node n) = throw .exhausted := by
  rw [follow.eq_def]
  simp only [h]

/-- Following one reference: where it leads to is found, and followed on. -/
lemma follow_succ {loader : Loader} {fuel : Nat} {seen : List String} {n : SchemaNode} {ref : String}
    (h : n.ref? = some ref) :
    follow loader (fuel + 1) seen (.node n) =
      if seen.contains n.uri then throw (.endless n.uri)
      else ExceptT.mk (pure ((Uri.join n.base ref).mapError .badUri)) >>= fun target =>
        resolve loader target >>= follow loader fuel (n.uri :: seen) := by
  rw [follow.eq_def]
  simp only [h]
  split <;> rfl

theorem reads_follow (loader : Loader) (fuel : Nat) (seen : List String) (e : Entry) (s : Store) :
    Reads loader s (outcome (follow loader fuel seen e) s).2 := by
  induction fuel generalizing seen e s with
  | zero =>
    cases e with
    | plain value => rw [follow_plain]; exact .refl
    | node n =>
      cases hr : n.ref? with
      | none => rw [follow_of_no_ref hr]; exact .refl
      | some ref => rw [follow_zero hr]; exact .refl
  | succ fuel ih =>
    cases e with
    | plain value => rw [follow_plain]; exact .refl
    | node n =>
      cases hr : n.ref? with
      | none => rw [follow_of_no_ref hr]; exact .refl
      | some ref =>
        rw [follow_succ hr]
        split
        · exact .refl
        · refine outcome_bind_leads .trans (by exact .refl) fun target t _ => ?_
          exact outcome_bind_leads .trans (reads_resolve loader target t) fun entry u _ => ih _ _ _

/-- Where following succeeds, its end is its beginning or an entry of the store, and no document was refused. -/
theorem of_follow_eq_ok {loader : Loader} {fuel : Nat} {seen : List String} {e e' : Entry} {s t : Store}
    (h : outcome (follow loader fuel seen e) s = (.ok e', t)) :
    (e' = e ∨ t.Holds e') ∧ (s.Whole → t.Whole) := by
  have same {a : Entry} {s : Store} (ha : outcome (pure a : StoreM Entry) s = (.ok e', t)) :
      (e' = a ∨ t.Holds e') ∧ (s.Whole → t.Whole) := by
    obtain ⟨rfl, rfl⟩ : a = e' ∧ s = t := by
      simpa using ha
    exact ⟨.inl rfl, id⟩
  induction fuel generalizing seen e s with
  | zero =>
    cases e with
    | plain value => exact same (by rwa [follow_plain] at h)
    | node n =>
      cases hr : n.ref? with
      | none => exact same (by rwa [follow_of_no_ref hr] at h)
      | some ref =>
        rw [follow_zero hr] at h
        simp at h
  | succ fuel ih =>
    cases e with
    | plain value => exact same (by rwa [follow_plain] at h)
    | node n =>
      cases hr : n.ref? with
      | none => exact same (by rwa [follow_of_no_ref hr] at h)
      | some ref =>
        rw [follow_succ hr] at h
        split at h
        · simp at h
        · obtain ⟨target, s₁, htarget, h₁⟩ := outcome_bind_eq_ok h
          obtain ⟨entry, s₂, hentry, h₂⟩ := outcome_bind_eq_ok h₁
          obtain rfl : s = s₁ := congrArg Prod.snd htarget
          obtain ⟨hheld, hwhole⟩ := of_resolve_eq_ok hentry
          obtain ⟨hend, hwhole'⟩ := ih h₂
          refine ⟨.inr ?_, hwhole' ∘ hwhole⟩
          rcases hend with rfl | hend
          · have hreads := reads_follow loader fuel (n.uri :: seen) e' s₂
            rw [h₂] at hreads
            exact hreads.holds hheld
          · exact hend

theorem reads_deref (loader : Loader) (e : Entry) (s : Store) :
    Reads loader s (outcome (deref loader e) s).2 := by
  unfold deref
  rw [outcome_bind_of_ok (outcome_get s)]
  exact reads_follow loader _ _ e s

theorem of_deref_eq_ok {loader : Loader} {e e' : Entry} {s t : Store}
    (h : outcome (deref loader e) s = (.ok e', t)) : (e' = e ∨ t.Holds e') ∧ (s.Whole → t.Whole) := by
  unfold deref at h
  rw [outcome_bind_of_ok (outcome_get s)] at h
  exact of_follow_eq_ok h

/-! ### Properties and items -/

lemma outcome_properties (loader : Loader) (n : SchemaNode) (s : Store) :
    outcome (properties loader n) s = outcome ((s.propertyEntries n).mapM fun p => do
      return (p.1, ← deref loader p.2)) s := rfl

lemma outcome_items (loader : Loader) (n : SchemaNode) (s : Store) :
    outcome (items loader n) s = outcome ((s.itemEntries n).mapM (deref loader)) s := rfl

theorem reads_properties (loader : Loader) (n : SchemaNode) (s : Store) :
    Reads loader s (outcome (properties loader n) s).2 := by
  rw [outcome_properties]
  refine outcome_mapM_leads (fun _ => .refl) .trans _ (fun p _ s => ?_) s
  exact outcome_bind_leads .trans (reads_deref loader p.2 s) fun _ _ _ => .refl

theorem reads_items (loader : Loader) (n : SchemaNode) (s : Store) :
    Reads loader s (outcome (items loader n) s).2 := by
  rw [outcome_items]
  exact outcome_mapM_leads (fun _ => .refl) .trans _ (fun e _ s => reads_deref loader e s) s

/-- What an entry stood for at some moment between two stores. -/
def StoodFor (loader : Loader) (s t : Store) (e e' : Entry) : Prop :=
  ∃ u v, Reads loader s u ∧ outcome (deref loader e) u = (.ok e', v) ∧ Reads loader v t

theorem of_properties_eq_ok {loader : Loader} {n : SchemaNode} {found : List (String × Entry)} {s t : Store}
    (h : outcome (properties loader n) s = (.ok found, t)) :
    List.Forall₂ (fun p q => q.1 = p.1 ∧ StoodFor loader s t p.2 q.2) (s.propertyEntries n) found := by
  rw [outcome_properties] at h
  have step : ∀ (p : String × Entry) (u : Store),
      Reads loader u (outcome (do return (p.1, ← deref loader p.2)) u).2 := fun p u =>
    outcome_bind_leads .trans (reads_deref loader p.2 u) fun _ _ _ => .refl
  have hall := outcome_mapM_eq_ok (fun _ => .refl) .trans step h
  refine hall.imp ?_
  rintro p q ⟨u, v, hu, hg, hv⟩
  obtain ⟨e, w, he, hlast⟩ := outcome_bind_eq_ok hg
  obtain ⟨rfl, rfl⟩ : (p.1, e) = q ∧ w = v := by
    simpa using hlast
  exact ⟨rfl, u, w, hu, he, hv⟩

theorem of_items_eq_ok {loader : Loader} {n : SchemaNode} {found : List Entry} {s t : Store}
    (h : outcome (items loader n) s = (.ok found, t)) :
    List.Forall₂ (StoodFor loader s t) (s.itemEntries n) found := by
  rw [outcome_items] at h
  exact outcome_mapM_eq_ok (fun _ => .refl) .trans (fun e s => reads_deref loader e s) h

lemma StoodFor.holds {loader : Loader} {s t : Store} {e e' : Entry} (h : StoodFor loader s t e e')
    (he : t.Holds e) : t.Holds e' := by
  obtain ⟨u, v, -, hd, hv⟩ := h
  rcases (of_deref_eq_ok hd).1 with rfl | hend
  · exact he
  · exact hv.holds hend

lemma StoodFor.mono {loader : Loader} {s s' t t' : Store} {e e' : Entry} (h : StoodFor loader s t e e')
    (hs : Reads loader s' s) (ht : Reads loader t t') : StoodFor loader s' t' e e' := by
  obtain ⟨u, v, hu, hd, hv⟩ := h
  exact ⟨u, v, hs.trans hu, hd, hv.trans ht⟩

lemma holds_of_mem_propertyEntries {s : Store} {n : SchemaNode} {p : String × Entry}
    (h : p ∈ s.propertyEntries n) : s.Holds p.2 := by
  unfold propertyEntries at h
  split at h
  · obtain ⟨q, -, hq⟩ := List.mem_filterMap.1 h
    obtain ⟨e, he, rfl⟩ := Option.map_eq_some_iff.1 hq
    exact holds_of_child? he
  · simp at h

lemma holds_of_mem_itemEntries {s : Store} {n : SchemaNode} {e : Entry} (h : e ∈ s.itemEntries n) :
    s.Holds e := by
  obtain ⟨c, -, hc⟩ := List.mem_filterMap.1 h
  exact holds_of_child? hc

/-- What is found has its counterpart among what was looked through. -/
lemma exists_of_mem_right {α β : Type} {R : α → β → Prop} {as : List α} {bs : List β}
    (h : List.Forall₂ R as bs) {b : β} (hb : b ∈ bs) : ∃ a ∈ as, R a b := by
  induction h with
  | nil => simp at hb
  | cons hR _ ih =>
    rcases List.mem_cons.1 hb with rfl | hb
    · exact ⟨_, List.mem_cons_self, hR⟩
    · obtain ⟨a, ha, hab⟩ := ih hb
      exact ⟨a, List.mem_cons_of_mem _ ha, hab⟩

/-- The nodes that properties stand for are in the store. -/
lemma mem_nodes_of_properties {loader : Loader} {n m : SchemaNode} {found : List (String × Entry)} {s t : Store}
    (h : outcome (properties loader n) s = (.ok found, t)) {q : String × Entry} (hq : q ∈ found)
    (hm : q.2 = .node m) : m ∈ t.nodes := by
  obtain ⟨p, hp, -, hstood⟩ := exists_of_mem_right (of_properties_eq_ok h) hq
  have hreads := reads_properties loader n s
  rw [h] at hreads
  have hholds := hstood.holds (hreads.holds (holds_of_mem_propertyEntries hp))
  rw [hm] at hholds
  exact hholds.mem_nodes

/-- The nodes that items stand for are in the store. -/
lemma mem_nodes_of_items {loader : Loader} {n m : SchemaNode} {found : List Entry} {s t : Store}
    (h : outcome (items loader n) s = (.ok found, t)) (hm : .node m ∈ found) : m ∈ t.nodes := by
  obtain ⟨e, he, hstood⟩ := exists_of_mem_right (of_items_eq_ok h) hm
  have hreads := reads_items loader n s
  rw [h] at hreads
  exact (hstood.holds (hreads.holds (holds_of_mem_itemEntries he))).mem_nodes

lemma whole_of_properties {loader : Loader} {n : SchemaNode} {found : List (String × Entry)} {s t : Store}
    (h : outcome (properties loader n) s = (.ok found, t)) (hs : s.Whole) : t.Whole := by
  rw [outcome_properties] at h
  refine outcome_mapM_keeps (fun p u q v hu hg => ?_) h hs
  obtain ⟨e, w, he, hlast⟩ := outcome_bind_eq_ok hg
  obtain rfl : w = v := congrArg Prod.snd hlast
  exact (of_deref_eq_ok he).2 hu

lemma whole_of_items {loader : Loader} {n : SchemaNode} {found : List Entry} {s t : Store}
    (h : outcome (items loader n) s = (.ok found, t)) (hs : s.Whole) : t.Whole := by
  rw [outcome_items] at h
  exact outcome_mapM_keeps (fun e u e' v hu hg => (of_deref_eq_ok hg).2 hu) h hs

end Store

end SchemaAccessors
