import SchemaAccessors.Proofs.Fragments
import SchemaAccessors.Proofs.OnDemand

/-!
# References within a document

A document that has no identifiers, but for the URI that its root may give it, has one base, and each of its
locations is found under the base and the keys that lead there from the root. A reference within the document is
joined to the base and taken apart again, and where the base takes fragments it comes back as the base and the
pointer. So it leads to the location that it was written for, and nothing is loaded. A base of another kind loses the
document on the way: a URN drops out of the reference, and other spellings of one URI are not the same text.
-/

namespace SchemaAccessors

/-! ## Documents that are identified at the root -/

/-- No schema of a document has an identifier, but for an `$id` without a fragment that the root may have. -/
structure Members.IdentifiedAtRoot (ms : Members) : Prop where
  anchor : (ms.get? "$anchor").bind Json.str? = none
  id : ∀ id, (ms.get? "$id").bind Json.str? = some id → '#' ∉ id.toList
  below : ∀ c ∈ ms.subschemas, c.value.Unidentified

/-- Without identifiers, all nodes have the base that the survey began with. -/
lemma base_of_unidentified (p : Position) {value : Json} (h : value.Unidentified) :
    ∀ n ∈ (survey p value).nodes, n.base = p.base := by
  induction p, value using survey_induction with
  | plain p value hplain =>
    intro n hn
    obtain ⟨x, hx, hentry⟩ := Survey.mem_nodes.1 hn
    rw [survey_plain hplain, List.mem_singleton] at hx
    rw [hx] at hentry
    cases hentry
  | object p ms ih =>
    intro m hm
    obtain ⟨x, hx, hentry⟩ := Survey.mem_nodes.1 hm
    cases henter : p.enter ms with
    | error cause => simp [survey_refused henter] at hx
    | ok entered =>
      obtain ⟨n, addresses⟩ := entered
      obtain ⟨hnode, -⟩ := Position.enter_of_unidentified (h [] ms (.here _)).1 henter
      have hbase : n.base = p.base := by simp [hnode, SchemaNode.base]
      rcases mem_places_survey_entered henter hx with rfl | ⟨c, hc, hx, -⟩
      · obtain rfl : n = m := Entry.node.inj hentry
        exact hbase
      · rw [ih c hc _ (h.of_subschema hc) m (Survey.mem_nodes.2 ⟨x, hx, hentry⟩)]
        exact hbase

/-- The URI of a node: what its `$id` is joined to, or that of its position. -/
lemma Position.uri_of_enter {p : Position} {ms : Members} {n : SchemaNode} {addresses : List Address}
    (h : p.enter ms = .ok (n, addresses)) :
    (∃ id, (ms.get? "$id").bind Json.str? = some id ∧ Uri.join p.base id = .ok n.uri) ∨ n.uri = p.uri := by
  have huri (uri base : String) : (p.nodeWith ⟨p.document, p.path, uri, base, ms⟩).uri = uri :=
    congrArg Site.uri (Position.site_nodeWith p _)
  cases Position.entered_of_enter h with
  | away found join split apart => exact .inl ⟨_, by rw [found]; rfl, by rw [huri, join]⟩
  | near found join split same => exact .inl ⟨_, by rw [found]; rfl, by rw [huri, join]⟩
  | unidentified absent => exact .inr (huri _ _)

/-- A root is found under the URI of its document and under its base, with no keys. -/
lemma Position.addresses_of_enter_root {uri : String} {ms : Members} {n : SchemaNode} {addresses : List Address}
    (henter : (Position.root uri).enter ms = .ok (n, addresses)) :
    (uri, []) ∈ addresses ∧ (ms.baseBelow uri, []) ∈ addresses ∧
      ∀ base path, (base, path) ∈ addresses → path = [] := by
  rw [(Position.enter_base henter).2]
  refine ⟨List.mem_append_left _ List.mem_cons_self, ?_, fun base path haddress => ?_⟩
  · show ((ms.ownBase? uri).getD uri, []) ∈ [(uri, [])] ++ (ms.ownBase? uri).toList.map (·, [])
    cases ms.ownBase? uri with
    | none => exact List.mem_append_left _ List.mem_cons_self
    | some own => exact List.mem_append_right _ List.mem_cons_self
  · rcases List.mem_append.1 haddress with haddress | haddress
    · exact congrArg Prod.snd (List.mem_singleton.1 haddress)
    · obtain ⟨own, -, heq⟩ := List.mem_map.1 haddress
      exact (congrArg Prod.snd heq).symm

namespace Members.IdentifiedAtRoot

variable {ms : Members} (h : ms.IdentifiedAtRoot) {uri : String} (huri : '#' ∉ uri.toList)
include h huri

/-- The root keeps a URI without a fragment. -/
lemma hash_notMem_uri {n : SchemaNode} {addresses : List Address}
    (henter : (Position.root uri).enter ms = .ok (n, addresses)) : '#' ∉ n.uri.toList := by
  rcases Position.uri_of_enter henter with ⟨id, hid, hjoin⟩ | hsame
  · exact Uri.hash_notMem_join huri (h.id id hid) hjoin
  · rw [hsame]
    exact huri

/-- What the places of the document are found under, and what their nodes are called. -/
lemma of_mem_places {x : Place} (hx : x ∈ (survey (.root uri) (.obj ms)).places) :
    (uri, x.path) ∈ x.addresses ∧ (ms.baseBelow uri, x.path) ∈ x.addresses ∧
      (∀ base path, (base, path) ∈ x.addresses → path = x.path) ∧
      ∀ n, x.entry = .node n → n.base = ms.baseBelow uri ∧
        ∃ own, '#' ∉ own.toList ∧ n.names = [x.path.foldl Uri.append own] := by
  cases henter : (Position.root uri).enter ms with
  | error cause => simp [survey_refused henter] at hx
  | ok entered =>
    obtain ⟨n, addresses⟩ := entered
    have hown := h.hash_notMem_uri huri henter
    have hbase := (Position.enter_base henter).1
    obtain ⟨hroot, hbelow, hempty⟩ := Position.addresses_of_enter_root henter
    obtain ⟨uri', base', hnode, -⟩ := Position.enter_spec henter
    rcases mem_places_survey_entered henter hx with rfl | ⟨c, hc, hx, -⟩
    · refine ⟨hroot, hbelow, hempty, fun m hm => ?_⟩
      obtain rfl : n = m := Entry.node.inj hm
      have hmembers : n.members = ms := by simp [hnode, SchemaNode.members]
      refine ⟨hbase, n.uri, hown, SchemaNode.names_of_not_anchored ?_⟩
      rw [hmembers]
      exact h.anchor
    · obtain ⟨path, hpath, hfound, hnames⟩ := names_of_unidentified _ (h.below c hc) x hx
      have hwhole : x.path = c.keys ++ path := by
        rw [hpath]
        simp [Position.below, hnode, Position.root]
      have hextended {base : String} (haddress : (base, []) ∈ addresses) : (base, x.path) ∈ x.addresses := by
        rw [hfound, hwhole]
        simpa [Position.below] using haddress
      refine ⟨hextended hroot, hextended hbelow, fun base path' haddress => ?_, fun m hm => ⟨?_, n.uri, hown, ?_⟩⟩
      · rw [hfound, List.mem_map] at haddress
        obtain ⟨⟨found, pointer⟩, hmem, heq⟩ := haddress
        obtain ⟨⟨base'', pointer'⟩, hmem', heq'⟩ := List.mem_map.1 hmem
        have hpointer : pointer' ++ c.keys = pointer := congrArg Prod.snd heq'
        have hpath' : pointer ++ path = path' := congrArg Prod.snd heq
        rw [← hpath', ← hpointer, hempty _ _ hmem', hwhole, List.nil_append]
      · exact (base_of_unidentified _ (h.below c hc) m (Survey.mem_nodes.2 ⟨x, hx, hm⟩)).trans hbase
      · rw [hnames m hm, hwhole, List.foldl_append]
        rfl

end Members.IdentifiedAtRoot

/-! ## The document among others -/

/-- A survey has nothing under a base: neither an address, nor the name of a node. -/
def Survey.Avoids (found : Survey) (base : String) : Prop :=
  ∀ x ∈ found.places, (∀ path, (base, path) ∉ x.addresses) ∧
    ∀ n, x.entry = .node n → ∀ name ∈ n.names, ∀ fragment, Uri.defragment name ≠ .ok (base, fragment)

/-- Checks that a survey has nothing under a base. -/
def Survey.isClearOf (found : Survey) (base : String) : Bool :=
  found.places.all fun x => x.addresses.all (·.1 ≠ base) && x.entry.node?.all fun n =>
    n.names.all fun name => (Uri.defragment name).toOption.map (·.1) ≠ some base

/-- The check is enough. -/
lemma Survey.avoids_of_isClearOf {found : Survey} {base : String} (h : found.isClearOf base = true) :
    found.Avoids base := by
  intro x hx
  have hplace := List.all_eq_true.1 h x hx
  rw [Bool.and_eq_true, List.all_eq_true] at hplace
  refine ⟨fun path haddress => ?_, fun n hn name hname fragment hsplit => ?_⟩
  · simpa using hplace.1 _ haddress
  · have hnode := hplace.2
    rw [hn] at hnode
    have hfree := List.all_eq_true.1 hnode name hname
    rw [hsplit] at hfree
    simp [Except.toOption] at hfree

/-- A survey is in a store, and no other survey of the store has anything under a base. -/
structure Store.Settles (s : Store) (found : Survey) (base : String) : Prop where
  stored : ∃ load ∈ s.loads, load.survey = found
  alone : ∀ load ∈ s.loads, load.survey = found ∨ load.survey.Avoids base

namespace Store

variable {s : Store} {ms : Members} {uri base : String}

lemma Settles.places_subset {found : Survey} (hs : s.Settles found base) : found.places ⊆ s.places := by
  obtain ⟨load, hload, rfl⟩ := hs.stored
  exact fun x hx => List.mem_flatMap.2 ⟨load, hload, hx⟩

lemma Settles.cases_of_mem {found : Survey} (hs : s.Settles found base) {x : Place} (hx : x ∈ s.places) :
    x ∈ found.places ∨ (∀ path, (base, path) ∉ x.addresses) ∧
      ∀ n, x.entry = .node n → ∀ name ∈ n.names, ∀ fragment, Uri.defragment name ≠ .ok (base, fragment) := by
  obtain ⟨load, hload, hx⟩ := List.mem_flatMap.1 hx
  rcases hs.alone load hload with rfl | havoids
  · exact .inl hx
  · exact .inr (havoids x hx)

/-- Under a base of the document, all that is found is what the survey left at the path. -/
lemma Settles.at?_eq (hs : s.Settles (survey (.root uri) (.obj ms)) base) (h : ms.IdentifiedAtRoot)
    (huri : '#' ∉ uri.toList) (hapart : (Json.obj ms).keysApart = true) {x : Place}
    (hx : x ∈ (survey (.root uri) (.obj ms)).places) (hbase : (base, x.path) ∈ x.addresses) :
    s.at? (base, x.path) = some x.entry := by
  obtain ⟨e, he⟩ := isSome_at? (hs.places_subset hx) hbase
  obtain ⟨y, hy, hya, rfl⟩ := of_at? he
  rcases hs.cases_of_mem hy with hy | ⟨hnone, -⟩
  · have hpath : x.path = y.path := (h.of_mem_places huri hy).2.2.1 base x.path hya
    have hpaths : ((survey (.root uri) (.obj ms)).places.map (·.path)).Nodup :=
      List.pairwise_map.2 (pairwise_path_survey (.root uri) hapart)
    rw [he, List.inj_on_of_nodup_map hpaths hx hy hpath]
  · exact absurd hya (hnone x.path)

/-- A name under a base of the document belongs to the node that its pointer leads to. -/
lemma Settles.at?_of_named? (hs : s.Settles (survey (.root uri) (.obj ms)) base) (h : ms.IdentifiedAtRoot)
    (huri : '#' ∉ uri.toList) (hapart : (Json.obj ms).keysApart = true)
    (hbase : ∀ x ∈ (survey (.root uri) (.obj ms)).places, (base, x.path) ∈ x.addresses) {source fragment : String}
    (hsplit : Uri.defragment source = .ok (base, fragment)) {n : SchemaNode} (hn : s.named? source = some n) :
    s.at? (base, Uri.pointer fragment) = some (.node n) := by
  obtain ⟨x, hx, hentry⟩ := holds_of_named? hn
  have hname : source ∈ n.names := of_named? hn
  rcases hs.cases_of_mem hx with hx | ⟨-, hnone⟩
  · obtain ⟨-, own, hown, hnames⟩ := (h.of_mem_places huri hx).2.2.2 n hentry
    rw [hnames, List.mem_singleton] at hname
    rw [hname] at hsplit
    rw [Uri.pointer_of_defragment hown hsplit, hs.at?_eq h huri hapart hx (hbase x hx), hentry]
  · exact absurd hsplit (hnone n hentry source hname fragment)

end Store

/-! ## Resolving a reference within the document -/

lemma Members.hash_notMem_baseBelow (ms : Members) {uri : String} (huri : '#' ∉ uri.toList) :
    '#' ∉ (ms.baseBelow uri).toList := by
  unfold baseBelow
  cases hown : ms.ownBase? uri with
  | none => exact huri
  | some own =>
    obtain ⟨id, -, hown⟩ := Option.bind_eq_some_iff.1 hown
    obtain ⟨joined, -, hown⟩ := Option.bind_eq_some_iff.1 hown
    obtain ⟨⟨document, fragment⟩, hsplit, hown⟩ := Option.bind_eq_some_iff.1 hown
    dsimp only at hown
    split at hown
    · obtain rfl := Option.some.inj hown
      cases hdefragment : Uri.defragment joined with
      | error fault =>
        rw [hdefragment] at hsplit
        cases hsplit
      | ok parts =>
        rw [hdefragment] at hsplit
        obtain rfl := Option.some.inj hsplit
        exact Uri.hash_notMem_of_defragment hdefragment
    · cases hown

/-- A document that is identified at its root was loaded, and no other document has anything under its base. If the
base takes fragments, a reference within the document is resolved to what the survey left at the location it points
to, whatever the loader. If not, it is not joined to the URI of that location. -/
theorem Store.resolve_within {s₀ s₁ s : Store} {ms : Members} {source uri fragment : String} {root : Entry}
    (hroot : ms.IdentifiedAtRoot) (hapart : (Json.obj ms).keysApart = true)
    (hsplit : Uri.defragment source = .ok (uri, fragment)) (hnew : s₀.hasLoaded uri = false)
    (hload : outcome (load (.obj ms) source) s₀ = (.ok root, s₁)) (hlater : s₁.loads <+: s.loads)
    (halone : ∀ load ∈ s.loads,
      load.survey = survey (.root uri) (.obj ms) ∨ load.survey.Avoids (ms.baseBelow uri)) :
    ∀ path value, Location (.obj ms) path value →
      ∃ x ∈ (survey (.root uri) (.obj ms)).places, x.path = path ∧ x.entry.StandsFor value ∧
        ∀ n ∈ (survey (.root uri) (.obj ms)).nodes, n.ref? = some (Uri.within path) →
          (Uri.TakesFragments (ms.baseBelow uri) →
            ∃ target, Uri.join n.base (Uri.within path) = .ok target ∧
              ∀ loader, outcome (resolve loader target) s = (.ok x.entry, s)) ∧
          (¬ Uri.TakesFragments (ms.baseBelow uri) →
            Uri.join n.base (Uri.within path) ≠ .ok (path.foldl Uri.append (ms.baseBelow uri))) := by
  have huri : '#' ∉ uri.toList := Uri.hash_notMem_of_defragment hsplit
  have hhash := ms.hash_notMem_baseBelow huri
  obtain ⟨hloads, hwhole⟩ := loads_of_load hsplit hnew hload
  have hstored : ⟨uri, survey (.root uri) (.obj ms)⟩ ∈ s.loads := by
    refine hlater.subset ?_
    rw [hloads]
    exact List.mem_append_right _ List.mem_cons_self
  have hs : s.Settles (survey (.root uri) (.obj ms)) (ms.baseBelow uri) := ⟨⟨_, hstored, rfl⟩, halone⟩
  intro path value hlocation
  obtain ⟨x, hx, hpath, hstands⟩ := exists_place_of_location hwhole hlocation
  obtain rfl : x.path = path := hpath
  refine ⟨x, hx, rfl, hstands, fun n hn _ => ?_⟩
  obtain ⟨y, hy, hentry⟩ := Survey.mem_nodes.1 hn
  rw [((hroot.of_mem_places huri hy).2.2.2 n hentry).1]
  constructor
  · intro htakes
    have hbase {z : Place} (hz : z ∈ (survey (.root uri) (.obj ms)).places) :
        (ms.baseBelow uri, z.path) ∈ z.addresses := (hroot.of_mem_places huri hz).2.1
    obtain ⟨first, hfirst, hstart, -⟩ := exists_place_of_location hwhole (.here (.obj ms))
    have hfirstat := hs.at?_eq hroot huri hapart hfirst (hbase hfirst)
    rw [show first.path = [] from hstart] at hfirstat
    have hxat := hs.at?_eq hroot huri hapart hx (hbase hx)
    obtain ⟨target, hjoin, htarget⟩ := Uri.exists_join_within htakes hhash x.path
    refine ⟨target, hjoin, fun loader => ?_⟩
    have hanswer : s.answer? target = some x.entry := by
      have hpointed := pointed?_eq_at? htarget (Uri.isPointer_fragmentOf x.path) s
      rw [Uri.pointer_fragmentOf, hxat] at hpointed
      rw [answer?, hpointed]
      cases hnamed : s.named? target with
      | none => rfl
      | some m =>
        have hmat := hs.at?_of_named? hroot huri hapart (fun z hz => hbase hz) htarget hnamed
        rw [Uri.pointer_fragmentOf, hxat] at hmat
        rw [Option.some.inj hmat]
        rfl
    rw [outcome_resolve_of_root htarget hfirstat, hanswer]
    rfl
  · intro hnot hjoin
    have hne : ms.baseBelow uri ≠ "" := by
      intro hempty
      rw [hempty] at hnot
      exact hnot (by decide)
    exact hnot ((Uri.join_within_iff hne hhash x.path).1 hjoin)

/-! ### Bases that take fragments and bases that do not -/

/-- Whether only the root of a document is identified can be computed. -/
lemma Members.identifiedAtRoot_of_subschemas {ms : Members} (hanchor : (ms.get? "$anchor").bind Json.str? = none)
    (hid : ∀ id, (ms.get? "$id").bind Json.str? = some id → '#' ∉ id.toList)
    (hwhole : ∀ c ∈ ms.subschemas, (survey (.root "") c.value).halt?.isNone)
    (hbelow : ∀ c ∈ ms.subschemas, ∀ n ∈ (survey (.root "") c.value).nodes,
      (n.members.get? "$id").bind Json.str? = none ∧ (n.members.get? "$anchor").bind Json.str? = none) :
    ms.IdentifiedAtRoot where
  anchor := hanchor
  id := hid
  below := fun c hc => Json.unidentified_of_nodes (Option.isNone_iff_eq_none.1 (hwhole c hc)) (hbelow c hc)

namespace Store

namespace Within

def defined : Members :=
  [("type", .str "string")]

def members : Members :=
  [("definitions", .obj [("x", .obj defined)]), ("properties", .obj [("a", .obj [("$ref", .str "#/definitions/x")])])]

/-- The same document, with a URI that its root gives it. -/
def renamed : Members :=
  ("$id", .str "b.json") :: members

def other : Json :=
  .obj [("$id", .str "http://h/d.json"), ("items", .obj [("$anchor", .str "top")])]

def offline : Loader :=
  ⟨[], ⟨[]⟩, .top⟩

def urn : Store :=
  (outcome (load (.obj members) "urn:example:a") empty).2

def before : Store :=
  (outcome (load other "http://h/c.json") empty).2

def after : Store :=
  (outcome (load (.obj renamed) "http://h/a.json") before).2

lemma identifiedAtRoot : members.IdentifiedAtRoot :=
  Members.identifiedAtRoot_of_subschemas (by decide) (by decide) (by decide +kernel) (by decide +kernel)

lemma identifiedAtRoot_renamed : renamed.IdentifiedAtRoot :=
  Members.identifiedAtRoot_of_subschemas (by decide) (fun id hid => by cases hid; decide) (by decide +kernel)
    (by decide +kernel)

lemma location {ms : Members} (h : ms.subschemas[0]? = some ⟨["definitions", "x"], .obj defined⟩) :
    Location (.obj ms) ["definitions", "x"] (.obj defined) :=
  .deeper (List.mem_of_getElem? h) (.here _)

end Within

/-- From a document that is identified by a URN, a reference within it leads to no document at all. -/
theorem lost_in_urn :
    Within.members.IdentifiedAtRoot ∧ Location (.obj Within.members) ["definitions", "x"] (.obj Within.defined) ∧
      ∃ root, outcome (load (.obj Within.members) "urn:example:a") empty = (.ok root, Within.urn) ∧
        ∃ n ∈ Within.urn.nodes, n.ref? = some (Uri.within ["definitions", "x"]) ∧
          ∃ target, Uri.join n.base (Uri.within ["definitions", "x"]) = .ok target ∧
            outcome (resolve Within.offline target) Within.urn = (.error (.notFetchable ""), Within.urn) := by
  obtain ⟨root, hload⟩ : ∃ root, outcome (load (.obj Within.members) "urn:example:a") empty = (.ok root, Within.urn) :=
    exists_of_toBool (by decide +kernel)
  obtain ⟨n, hn, hbase, href⟩ : ∃ n ∈ Within.urn.nodes, n.base = "urn:example:a" ∧
      n.ref? = some (Uri.within ["definitions", "x"]) := by
    decide +kernel
  refine ⟨Within.identifiedAtRoot, Within.location rfl, root, hload, n, hn, href, "#/definitions/x", ?_, ?_⟩
  · rw [hbase]
    decide +kernel
  · have hsplit : Uri.defragment "#/definitions/x" = .ok ("", "/definitions/x") := by decide +kernel
    have hnamed : Within.urn.named? "#/definitions/x" = none := Option.isNone_iff_eq_none.1 (by decide +kernel)
    have hnowhere : Within.urn.at? ("", []) = none := Option.isNone_iff_eq_none.1 (by decide +kernel)
    exact outcome_resolve_of_fetch_error hsplit hnamed hnowhere rfl

/-- The root is renamed, and another document has a base of its own. -/
theorem resolve_within_of_renamed :
    Within.renamed.IdentifiedAtRoot ∧ Within.before.loads.length = 1 ∧
      ∃ root, outcome (load (.obj Within.renamed) "http://h/a.json") Within.before = (.ok root, Within.after) ∧
        ∃ n ∈ Within.after.nodes, n.ref? = some (Uri.within ["definitions", "x"]) ∧
          ∃ (entry : Entry) (target : String), entry.StandsFor (.obj Within.defined) ∧
            Uri.join n.base (Uri.within ["definitions", "x"]) = .ok target ∧
            ∀ loader, outcome (resolve loader target) Within.after = (.ok entry, Within.after) := by
  obtain ⟨root, hload⟩ :
      ∃ root, outcome (load (.obj Within.renamed) "http://h/a.json") Within.before = (.ok root, Within.after) :=
    exists_of_toBool (by decide +kernel)
  have hsplit : Uri.defragment "http://h/a.json" = .ok ("http://h/a.json", "") := by decide +kernel
  have hnew : Within.before.hasLoaded "http://h/a.json" = false := by decide +kernel
  have hbase : Within.renamed.baseBelow "http://h/a.json" = "http://h/b.json" := by decide +kernel
  have hclear : ∀ load ∈ Within.before.loads, load.survey.isClearOf "http://h/b.json" = true := by decide +kernel
  have halone : ∀ load ∈ Within.after.loads, load.survey = survey (.root "http://h/a.json") (.obj Within.renamed) ∨
      load.survey.Avoids (Within.renamed.baseBelow "http://h/a.json") := by
    intro load hmem
    rw [(loads_of_load hsplit hnew hload).1] at hmem
    rcases List.mem_append.1 hmem with hmem | hmem
    · rw [hbase]
      exact .inr (Survey.avoids_of_isClearOf (hclear load hmem))
    · rw [List.mem_singleton.1 hmem]
      exact .inl rfl
  obtain ⟨n, hn, href⟩ : ∃ n ∈ (survey (.root "http://h/a.json") (.obj Within.renamed)).nodes,
      n.ref? = some (Uri.within ["definitions", "x"]) := by
    decide +kernel
  have hafter : n ∈ Within.after.nodes := by
    refine mem_nodes.2 ⟨⟨"http://h/a.json", survey (.root "http://h/a.json") (.obj Within.renamed)⟩, ?_, hn⟩
    rw [(loads_of_load hsplit hnew hload).1]
    exact List.mem_append_right _ List.mem_cons_self
  have htakes : Uri.TakesFragments (Within.renamed.baseBelow "http://h/a.json") := by
    rw [hbase]
    decide +kernel
  obtain ⟨x, -, -, hstands, hresolve⟩ := resolve_within Within.identifiedAtRoot_renamed (by decide) hsplit hnew hload
    (List.prefix_refl _) halone _ _ (Within.location rfl)
  obtain ⟨target, hjoin, hall⟩ := (hresolve n hn href).1 htakes
  exact ⟨Within.identifiedAtRoot_renamed, by decide +kernel, root, hload, n, hafter, href, x.entry, target, hstands,
    hjoin, hall⟩

end Store

/-- Whether a document is loaded on demand or before makes no difference to it. -/
theorem Store.resolve_on_demand_eq {loader : Loader} {s : Store} {ms : Members} {source uri fragment : String}
    {root : Entry} (hroot : ms.IdentifiedAtRoot) (hapart : (Json.obj ms).keysApart = true)
    (hsplit : Uri.defragment source = .ok (uri, fragment)) (hfetch : loader.fetch uri = .ok (.obj ms))
    (hload : outcome (load (.obj ms) uri) empty = (.ok root, s)) :
    outcome (resolve loader source) empty = outcome (resolve loader source) s := by
  have huri : '#' ∉ uri.toList := Uri.hash_notMem_of_defragment hsplit
  have hstable := Uri.defragment_of_defragment hsplit
  obtain ⟨hloads, -⟩ := loads_of_load hstable rfl hload
  rw [show (empty : Store).loads = [] from rfl, List.nil_append] at hloads
  have hs : s.Settles (survey (.root uri) (.obj ms)) uri := by
    refine ⟨⟨_, by rw [hloads]; exact List.mem_cons_self, rfl⟩, fun load hmem => .inl ?_⟩
    rw [hloads, List.mem_singleton] at hmem
    rw [hmem]
  obtain ⟨first, hfirst⟩ := exists_at?_of_load hstable hload
  rw [outcome_resolve_empty hsplit hfetch hload, outcome_resolve_of_root hsplit hfirst, answer?]
  by_cases hpointer : IsPointer fragment
  · rw [if_pos hpointer, pointed?_eq_at? hsplit hpointer]
    cases hnamed : s.named? source with
    | none => rfl
    | some n =>
      rw [hs.at?_of_named? hroot huri hapart (fun x hx => (hroot.of_mem_places huri hx).1) hsplit hnamed]
      rfl
  · rw [if_neg hpointer, pointed?_eq_none hsplit hpointer, Option.or_none]

end SchemaAccessors
