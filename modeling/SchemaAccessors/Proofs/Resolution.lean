import SchemaAccessors.Proofs.Documents
import SchemaAccessors.Proofs.Locations
import SchemaAccessors.Proofs.Pointers
import SchemaAccessors.Proofs.Settled

/-!
# Pointers into documents without identifiers

A store has two ways to a place: the URI of a node, and the address of a place. A URI is asked for by its text, an
address by the keys that a fragment is read as, so one location can be asked for in many spellings, of which one
is the URI of the node there. Without identifiers the two ways never lead apart. What is found is what the survey
of the document left at the location, and it is found in the store.
-/

namespace SchemaAccessors

/-- Documents under URIs of their own, none with an identifier in it. A URI is left as it is when a fragment
behind it is taken off, and no object has a key twice. -/
structure Library (documents : List (String × Json)) : Prop where
  distinct : (documents.map (·.1)).Nodup
  stable : ∀ d ∈ documents, Uri.defragment (d.1 ++ "#") = .ok (d.1, "")
  keysApart : ∀ d ∈ documents, d.2.keysApart = true
  unidentified : ∀ d ∈ documents, d.2.Unidentified

namespace Store

/-! ## Loading documents one after another -/

/-- A store after documents were loaded into it. A load may fail, and the next one follows. -/
def loadAll (s : Store) (documents : List (String × Json)) : Store :=
  documents.foldl (fun s d => (outcome (load d.2 d.1) s).2) s

/-- The store of some documents. -/
abbrev holding (documents : List (String × Json)) : Store :=
  loadAll empty documents

/-- What the load of a document leaves, if anything. -/
def surveyed? (d : String × Json) : Option Load :=
  match d.2 with
  | .obj ms => some ⟨d.1, survey (.root d.1) (.obj ms)⟩
  | _ => none

/-- Under a URI that was not used before, a load adds the survey of the document, if that is an object. -/
lemma loads_load {s : Store} {d : String × Json} (huri : Uri.defragment d.1 = .ok (d.1, ""))
    (hfresh : s.hasLoaded d.1 = false) :
    (outcome (load d.2 d.1) s).2.loads = s.loads ++ (surveyed? d).toList := by
  obtain ⟨uri, document⟩ := d
  have hloading := loading_load huri document s
  generalize outcome (load document uri) s = r at hloading
  cases hloading with
  | known used | lost used =>
    rw [hfresh] at used
    cases used
  | refused new plain =>
    cases document with
    | obj ms => exact (plain ms rfl).elim
    | _ => exact (List.append_nil s.loads).symm
  | halted new object | loaded new object =>
    subst object
    rfl

lemma loads_loadAll {s : Store} {documents : List (String × Json)} (hdistinct : (documents.map (·.1)).Nodup)
    (hstable : ∀ d ∈ documents, Uri.defragment d.1 = .ok (d.1, ""))
    (hfresh : ∀ d ∈ documents, s.hasLoaded d.1 = false) :
    (s.loadAll documents).loads = s.loads ++ documents.filterMap surveyed? := by
  induction documents generalizing s with
  | nil => exact (List.append_nil s.loads).symm
  | cons d documents ih =>
    obtain ⟨hnot, hrest⟩ := List.nodup_cons.1 hdistinct
    set t := (outcome (load d.2 d.1) s).2
    have hloads : t.loads = s.loads ++ (surveyed? d).toList :=
      loads_load (hstable d List.mem_cons_self) (hfresh d List.mem_cons_self)
    have hfresh' : ∀ d' ∈ documents, t.hasLoaded d'.1 = false := by
      intro d' hd'
      have hne : d.1 ≠ d'.1 := fun heq => hnot (List.mem_map.2 ⟨d', hd', heq.symm⟩)
      have hold := hfresh d' (List.mem_cons_of_mem d hd')
      unfold hasLoaded at hold ⊢
      rw [hloads, List.any_append, hold, Bool.false_or]
      unfold surveyed?
      split
      · simpa using hne
      · rfl
    have htail := ih hrest (fun d' hd' => hstable d' (List.mem_cons_of_mem d hd')) hfresh'
    show (t.loadAll documents).loads = _
    rw [htail, hloads, List.append_assoc]
    simp only [List.filterMap_eq_flatMap_toList, List.flatMap_cons]

end Store

/-! ## The places of a library -/

namespace Library

variable {documents : List (String × Json)} (h : Library documents)
include h

lemma defragment_uri {d : String × Json} (hd : d ∈ documents) : Uri.defragment d.1 = .ok (d.1, "") :=
  Uri.defragment_of_defragment (h.stable d hd)

lemma hash_notMem_uri {d : String × Json} (hd : d ∈ documents) : '#' ∉ d.1.toList :=
  Uri.hash_notMem_of_defragment (h.stable d hd)

lemma mem_places {x : Place} :
    x ∈ (Store.holding documents).places ↔
      ∃ uri ms, (uri, Json.obj ms) ∈ documents ∧ x ∈ (survey (.root uri) (.obj ms)).places := by
  have hloads := Store.loads_loadAll (s := Store.empty) h.distinct (fun d hd => h.defragment_uri hd)
    fun _ _ => rfl
  unfold Store.places
  rw [hloads]
  show x ∈ (documents.filterMap Store.surveyed?).flatMap _ ↔ _
  simp only [List.mem_flatMap, List.mem_filterMap]
  constructor
  · rintro ⟨load, ⟨⟨uri, document⟩, hd, hload⟩, hx⟩
    cases document with
    | obj ms =>
      obtain rfl := Option.some.inj hload
      exact ⟨uri, ms, hd, hx⟩
    | _ => cases hload
  · rintro ⟨uri, ms, hd, hx⟩
    exact ⟨⟨uri, survey (.root uri) (.obj ms)⟩, ⟨(uri, .obj ms), hd, rfl⟩, hx⟩

/-- A place has one address, which says where it is, and a node has one name, which is written from it. -/
lemma of_mem_survey {uri : String} {ms : Members} (hd : (uri, Json.obj ms) ∈ documents) {x : Place}
    (hx : x ∈ (survey (.root uri) (.obj ms)).places) :
    x.addresses = [(uri, x.path)] ∧ ∀ n, x.entry = .node n → n.names = [x.path.foldl Uri.append uri] := by
  obtain ⟨path, hpath, haddresses, hnames⟩ :=
    names_of_unidentified (.root uri) (h.unidentified _ hd) x hx
  have hroot : x.path = path := hpath
  rw [hroot]
  exact ⟨haddresses, hnames⟩

lemma eq_of_uri {uri : String} {document document' : Json} (hd : (uri, document) ∈ documents)
    (hd' : (uri, document') ∈ documents) : document = document' :=
  congrArg Prod.snd (List.inj_on_of_nodup_map h.distinct hd hd' rfl)

lemma eq_of_path {uri : String} {ms : Members} (hd : (uri, Json.obj ms) ∈ documents) {x y : Place}
    (hx : x ∈ (survey (.root uri) (.obj ms)).places) (hy : y ∈ (survey (.root uri) (.obj ms)).places)
    (hpath : x.path = y.path) : x = y := by
  have hpaths : ((survey (.root uri) (.obj ms)).places.map (·.path)).Nodup :=
    List.pairwise_map.2 (pairwise_path_survey (.root uri) (h.keysApart _ hd))
  exact List.inj_on_of_nodup_map hpaths hx hy hpath

/-- No two places have one address. -/
lemma eq_of_address {x y : Place} (hx : x ∈ (Store.holding documents).places)
    (hy : y ∈ (Store.holding documents).places) {address : Address} (hxa : address ∈ x.addresses)
    (hya : address ∈ y.addresses) : x = y := by
  obtain ⟨uri, ms, hd, hx⟩ := h.mem_places.1 hx
  obtain ⟨uri', ms', hd', hy⟩ := h.mem_places.1 hy
  rw [(h.of_mem_survey hd hx).1, List.mem_singleton] at hxa
  rw [(h.of_mem_survey hd' hy).1, List.mem_singleton, hxa, Prod.mk.injEq] at hya
  obtain ⟨rfl, hpath⟩ := hya
  obtain rfl := Json.obj.inj (h.eq_of_uri hd hd')
  exact h.eq_of_path hd hx hy hpath

lemma at?_eq {x : Place} (hx : x ∈ (Store.holding documents).places) {address : Address}
    (hxa : address ∈ x.addresses) : (Store.holding documents).at? address = some x.entry := by
  obtain ⟨e, he⟩ := Store.isSome_at? hx hxa
  obtain ⟨y, hy, hya, rfl⟩ := Store.of_at? he
  rw [he, h.eq_of_address hy hx hya hxa]

/-- A node whose URI is that of a document with a fragment is where the fragment points to. -/
lemma place_of_uri {uri fragment : String} {d : String × Json} (hd : d ∈ documents) (huri : d.1 = uri)
    {x : Place} (hx : x ∈ (Store.holding documents).places) {n : SchemaNode} (hn : x.entry = .node n)
    (hname : uri ++ "#" ++ fragment ∈ n.names) : (uri, Uri.pointer fragment) ∈ x.addresses := by
  obtain ⟨uri', ms, hd', hx⟩ := h.mem_places.1 hx
  obtain ⟨haddresses, hnames⟩ := h.of_mem_survey hd' hx
  rw [hnames n hn, List.mem_singleton] at hname
  have hwhole : (uri ++ "#" ++ fragment).toList = uri.toList ++ '#' :: fragment.toList := by
    simp
  have hhash : '#' ∉ uri.toList := huri ▸ h.hash_notMem_uri hd
  have hhash' : '#' ∉ uri'.toList := h.hash_notMem_uri hd'
  have hbelow : x.path ≠ [] := by
    intro hroot
    rw [hroot, List.foldl_nil] at hname
    rw [← hname, hwhole] at hhash'
    simp at hhash'
  have hcut := Uri.cut_append_cons hhash fragment.toList
  rw [← hwhole, hname, Uri.cut_foldl_append hhash' hbelow, Prod.mk.injEq, Option.some.injEq] at hcut
  obtain ⟨hsame, hfragment⟩ := hcut
  have hpointer : Uri.pointer fragment = x.path := by
    rw [← String.ofList_toList (s := fragment), ← hfragment, Uri.pointer_fragmentOf]
  rw [haddresses, hpointer, List.mem_singleton, Prod.mk.injEq]
  exact ⟨(String.toList_inj.1 hsame).symm, rfl⟩

/-- The two ways to a place do not lead apart. -/
lemma at?_of_named? {uri fragment : String} {d : String × Json} (hd : d ∈ documents) (huri : d.1 = uri)
    {n : SchemaNode} (hn : (Store.holding documents).named? (uri ++ "#" ++ fragment) = some n) :
    (Store.holding documents).at? (uri, Uri.pointer fragment) = some (.node n) := by
  obtain ⟨x, hx, hentry⟩ := Store.holds_of_named? hn
  rw [h.at?_eq hx (h.place_of_uri hd huri hx hentry (Store.of_named? hn)), hentry]

/-- Different places of a library have nodes with different URIs. -/
lemma eq_of_node_uri {x y : Place} (hx : x ∈ (Store.holding documents).places)
    (hy : y ∈ (Store.holding documents).places) {n m : SchemaNode} (hn : x.entry = .node n)
    (hm : y.entry = .node m) (huri : n.uri = m.uri) : x = y := by
  obtain ⟨uri, ms, hd, hx⟩ := h.mem_places.1 hx
  obtain ⟨uri', ms', hd', hy⟩ := h.mem_places.1 hy
  have hown (n : SchemaNode) : n.uri ∈ n.names := by
    unfold SchemaNode.names
    split <;> exact List.mem_cons_self
  have hxuri := hown n
  have hyuri := hown m
  rw [(h.of_mem_survey hd hx).2 n hn, List.mem_singleton] at hxuri
  rw [(h.of_mem_survey hd' hy).2 m hm, List.mem_singleton] at hyuri
  obtain ⟨rfl, hpath⟩ := Uri.foldl_append_inj (h.hash_notMem_uri hd) (h.hash_notMem_uri hd')
    (hxuri.symm.trans (huri.trans hyuri))
  obtain rfl := Json.obj.inj (h.eq_of_uri hd hd')
  exact h.eq_of_path hd hx hy hpath

end Library

/-! ## Resolving a pointer -/

/-- Where the root of a document is stored, a pointer into the document is looked up in the store, behind the
names of nodes. -/
lemma Store.outcome_resolve_pointer {s : Store} {uri fragment : String}
    (hsplit : Uri.defragment (uri ++ "#" ++ fragment) = .ok (uri, fragment))
    (hpointer : fragment = "" ∨ fragment.startsWith "/")
    (hnamed : ∀ n, s.named? (uri ++ "#" ++ fragment) = some n → s.at? (uri, Uri.pointer fragment) = some (.node n))
    (hroot : (s.at? (uri, [])).isSome) (loader : Loader) :
    outcome (resolve loader (uri ++ "#" ++ fragment)) s =
      ((s.at? (uri, Uri.pointer fragment)).elim (.error (.unresolved (uri ++ "#" ++ fragment))) .ok, s) := by
  unfold resolve
  rw [outcome_bind_of_ok (outcome_get s)]
  cases hn : s.named? (uri ++ "#" ++ fragment) with
  | some n =>
    rw [hnamed n hn]
    rfl
  | none =>
    have hloaded : outcome (ensureLoaded loader uri) s = (.ok ⟨⟩, s) := by
      unfold ensureLoaded
      rw [outcome_bind_of_ok (outcome_get s), if_neg (by simpa [Option.isSome_iff_ne_none] using hroot)]
      rfl
    dsimp only
    rw [outcome_bind_of_ok (outcome_split_of_ok hsplit s), outcome_bind_of_ok hloaded,
      outcome_bind_of_ok (outcome_get s)]
    dsimp only
    rw [if_pos hpointer]
    cases s.at? (uri, Uri.pointer fragment) <;> rfl

/-- In a library, a pointer into a document whose root is stored is resolved to what the survey of the document
left there, and fails where the survey left nothing; no loader is asked. A name that is such a pointer belongs
to the node there, and no two places have nodes of one URI. -/
theorem Library.resolve_pointer {documents : List (String × Json)} (h : Library documents) :
    (∀ uri document, (uri, document) ∈ documents →
      ((Store.holding documents).at? (uri, [])).isSome →
      ∀ fragment : String, (fragment = "" ∨ fragment.startsWith "/") →
      (∀ c ∈ fragment.toList, c ≠ '\t' ∧ c ≠ '\r' ∧ c ≠ '\n') →
      (∀ loader, ∀ x ∈ (survey (.root uri) document).places, x.path = Uri.pointer fragment →
        outcome (Store.resolve loader (uri ++ "#" ++ fragment)) (Store.holding documents)
          = (.ok x.entry, Store.holding documents))
      ∧ (∀ loader, (∀ x ∈ (survey (.root uri) document).places, x.path ≠ Uri.pointer fragment) →
        outcome (Store.resolve loader (uri ++ "#" ++ fragment)) (Store.holding documents)
          = (.error (.unresolved (uri ++ "#" ++ fragment)), Store.holding documents))
      ∧ ∀ n, (Store.holding documents).named? (uri ++ "#" ++ fragment) = some n →
        (Store.holding documents).at? (uri, Uri.pointer fragment) = some (.node n))
    ∧ ∀ x ∈ (Store.holding documents).places, ∀ y ∈ (Store.holding documents).places,
      ∀ n m, x.entry = .node n → y.entry = .node m → n.uri = m.uri → x = y := by
  refine ⟨?_, fun x hx y hy n m hn hm huri => h.eq_of_node_uri hx hy hn hm huri⟩
  intro uri document hd hroot fragment hpointer hfragment
  -- only an object has a root in the store
  obtain ⟨ms, rfl⟩ : ∃ ms, document = .obj ms := by
    obtain ⟨e, he⟩ := Option.isSome_iff_exists.1 hroot
    obtain ⟨x, hx, hxa, -⟩ := Store.of_at? he
    obtain ⟨uri', ms, hd', hx⟩ := h.mem_places.1 hx
    rw [(h.of_mem_survey hd' hx).1, List.mem_singleton, Prod.mk.injEq] at hxa
    obtain rfl := hxa.1
    exact ⟨ms, h.eq_of_uri hd hd'⟩
  have hsplit := Uri.defragment_append_hash (h.stable _ hd) hfragment
  have hnamed : ∀ n, (Store.holding documents).named? (uri ++ "#" ++ fragment) = some n →
      (Store.holding documents).at? (uri, Uri.pointer fragment) = some (.node n) :=
    fun n hn => h.at?_of_named? hd rfl hn
  refine ⟨fun loader x hx hpath => ?_, fun loader hnone => ?_, hnamed⟩
  · have hxa : (uri, Uri.pointer fragment) ∈ x.addresses := by
      rw [(h.of_mem_survey hd hx).1, hpath]
      exact List.mem_singleton_self _
    rw [Store.outcome_resolve_pointer hsplit hpointer hnamed hroot,
      h.at?_eq (h.mem_places.2 ⟨uri, ms, hd, hx⟩) hxa]
    rfl
  · have hnowhere : (Store.holding documents).at? (uri, Uri.pointer fragment) = none := by
      by_contra hsome
      obtain ⟨e, he⟩ := Option.ne_none_iff_exists'.1 hsome
      obtain ⟨x, hx, hxa, -⟩ := Store.of_at? he
      obtain ⟨uri', ms', hd', hx⟩ := h.mem_places.1 hx
      rw [(h.of_mem_survey hd' hx).1, List.mem_singleton, Prod.mk.injEq] at hxa
      obtain ⟨rfl, hpath⟩ := hxa
      obtain rfl := Json.obj.inj (h.eq_of_uri hd hd')
      exact hnone x hx hpath.symm
    rw [Store.outcome_resolve_pointer hsplit hpointer hnamed hroot, hnowhere]
    rfl

namespace Library.Sample

def members : Members :=
  [("properties", .obj [("a/b", .bool true), ("", .obj [("$ref", .str "#")]), ("$id", .int 1)]), ("items", .null)]

def documents : List (String × Json) :=
  [("http://a/b", .obj members), ("c", .null)]

def loader : Loader :=
  ⟨[], ⟨[]⟩, .top⟩

lemma unbroken {fragment : String}
    (h : fragment.toList.all (fun c => c != '\t' && c != '\r' && c != '\n') = true) :
    ∀ c ∈ fragment.toList, c ≠ '\t' ∧ c ≠ '\r' ∧ c ≠ '\n' := by
  intro c hc
  simpa [and_assoc] using List.all_eq_true.1 h c hc

lemma library : Library documents where
  distinct := by decide
  stable := by
    intro d hd
    simp only [documents, List.mem_cons, List.not_mem_nil, or_false] at hd
    rcases hd with rfl | rfl <;> decide +kernel
  keysApart := by decide
  unidentified := by
    intro d hd
    simp only [documents, List.mem_cons, List.not_mem_nil, or_false] at hd
    rcases hd with rfl | rfl
    · exact Json.unidentified_of_nodes (p := .root "http://a/b") (Option.isNone_iff_eq_none.1 (by decide +kernel))
        (by decide +kernel)
    · exact Json.unidentified_of_nodes (p := .root "c") (Option.isNone_iff_eq_none.1 (by decide +kernel))
        (by decide +kernel)

end Library.Sample

/-- A key with a slash in another spelling than that of URIs, and a location that is not there. -/
theorem Library.resolve_pointer_of_spellings :
    Library Sample.documents
      ∧ outcome (Store.resolve Sample.loader "http://a/b#/properties/%61~1b") (Store.holding Sample.documents)
        = (.ok (.plain (.bool true)), Store.holding Sample.documents)
      ∧ outcome (Store.resolve Sample.loader "http://a/b#/properties/a/b") (Store.holding Sample.documents)
        = (.error (.unresolved "http://a/b#/properties/a/b"), Store.holding Sample.documents) := by
  have hroot : ((Store.holding Sample.documents).at? ("http://a/b", [])).isSome := by decide +kernel
  have hloaded := (resolve_pointer Sample.library).1 "http://a/b" (.obj Sample.members) List.mem_cons_self hroot
  refine ⟨Sample.library, ?_, ?_⟩
  · have hproperty : ⟨["properties", "a/b"], .bool true⟩ ∈ Members.subschemas Sample.members :=
      Members.mem_subschemas_of_property (m := ("a/b", .bool true)) rfl List.mem_cons_self
    have hlocation : Location (.obj Sample.members) ["properties", "a/b"] (.bool true) :=
      .deeper hproperty (.here _)
    obtain ⟨x, hx, hpath, hentry⟩ := exists_place_of_location (p := .root "http://a/b")
      (Option.isNone_iff_eq_none.1 (by decide +kernel)) hlocation
    have hentry' : x.entry = .plain (.bool true) := by
      cases he : x.entry with
      | node n =>
        rw [he] at hentry
        cases hentry
      | plain value =>
        rw [he] at hentry
        rw [hentry.1]
    have hpointer : x.path = Uri.pointer "/properties/%61~1b" := by
      rw [hpath]
      decide +kernel
    rw [← hentry']
    exact (hloaded "/properties/%61~1b" (.inr (by decide +kernel)) (Sample.unbroken (by decide))).1
      Sample.loader x hx hpointer
  · exact (hloaded "/properties/a/b" (.inr (by decide +kernel)) (Sample.unbroken (by decide))).2.1
      Sample.loader (by decide +kernel)

end SchemaAccessors
