import Mathlib.Data.List.Pairwise
import SchemaAccessors.Proofs.Resolution

/-!
# The addresses of a document

Every location of a document is found under the URI of the document and the keys that lead to it from the root. An
`$id` that leads away from the base introduces another base, and all locations from there on are found under that
base as well, with the keys that lead to them from the `$id`. If no base is introduced twice and none is the URI of
the document, then all addresses of a location lead to what the survey left there, and the store has no other
address.
-/

namespace SchemaAccessors

/-! ## The bases that are introduced -/

/-- The base that the `$id` of an object leads to, where that is not the base that it is relative to. -/
def Members.ownBase? (base : String) (ms : Members) : Option String := do
  let id ← (ms.get? "$id").bind Json.str?
  let uri ← (Uri.join base id).toOption
  let (own, _) ← (Uri.defragment uri).toOption
  if own ≠ "" ∧ own ≠ base then some own else none

/-- The base of the subschemas of an object. -/
def Members.baseBelow (base : String) (ms : Members) : String :=
  (ms.ownBase? base).getD base

/-- In a value with a base, the `$id` at the end of a path introduces a base of its own. -/
inductive Json.Introduces : (base : String) → Json → (path : List String) → (own : String) → Prop
  | here {base own : String} {ms : Members} (h : ms.ownBase? base = some own) : Introduces base (.obj ms) [] own
  | deeper {base own : String} {ms : Members} {c : Subschema} {path : List String} (hc : c ∈ ms.subschemas)
      (h : Introduces (ms.baseBelow base) c.value path own) : Introduces base (.obj ms) (c.keys ++ path) own

/-- The bases that a document introduces differ from each other and from the URI of the document. -/
structure Json.BasesApart (document : Json) (uri : String) : Prop where
  distinct : ∀ {path path' own}, document.Introduces uri path own → document.Introduces uri path' own → path = path'
  fresh : ∀ {path own}, document.Introduces uri path own → own ≠ uri

/-- The addresses of a location: the way from the root, and the way from each `$id` on it that introduces a base. -/
inductive Json.AddressOf (document : Json) (uri : String) : (path : List String) → Address → Prop
  | root (path : List String) : AddressOf document uri path (uri, path)
  | own {start rest : List String} {base : String} (h : document.Introduces uri start base) :
      AddressOf document uri (start ++ rest) (base, rest)

/-- Entering an object gives its node the base that the object introduces, and adds that to the addresses. -/
lemma Position.enter_base {p : Position} {ms : Members} {n : SchemaNode} {addresses : List Address}
    (h : p.enter ms = .ok (n, addresses)) :
    n.base = ms.baseBelow p.base ∧ addresses = p.addresses ++ (ms.ownBase? p.base).toList.map (·, []) := by
  have hbase (own uri : String) : (p.nodeWith ⟨p.document, p.path, uri, own, ms⟩).base = own :=
    congrArg Site.base (Position.site_nodeWith p _)
  have hown {id uri own fragment : String} (hid : ms.get? "$id" = some (.str id))
      (hjoin : Uri.join p.base id = .ok uri) (hsplit : Uri.defragment uri = .ok (own, fragment)) :
      ms.ownBase? p.base = if own ≠ "" ∧ own ≠ p.base then some own else none := by
    simp [Members.ownBase?, hid, Json.str?, hjoin, hsplit, Except.toOption]
  cases Position.entered_of_enter h with
  | away found join split apart =>
    rw [Members.baseBelow, hown found join split, if_pos apart]
    exact ⟨hbase _ _, rfl⟩
  | near found join split same =>
    rw [Members.baseBelow, hown found join split, if_neg same]
    exact ⟨hbase _ _, (List.append_nil _).symm⟩
  | unidentified absent =>
    have hnone : ms.ownBase? p.base = none := by
      rw [Members.ownBase?, absent]
      rfl
    rw [Members.baseBelow, hnone]
    exact ⟨hbase _ _, (List.append_nil _).symm⟩

/-! ## The places of a survey and their addresses -/

/-- A place of an object is that of its node, or one of a subschema that its path leads through. -/
lemma mem_places_obj {p : Position} {ms : Members} {x : Place} (hx : x ∈ (survey p (.obj ms)).places)
    {path : List String} (hpath : x.path = p.path ++ path) :
    ∃ n addresses, p.enter ms = .ok (n, addresses) ∧
      (path = [] ∧ x = ⟨p.path, addresses, .node n⟩ ∨
        ∃ c ∈ ms.subschemas, ∃ rest, path = c.keys ++ rest ∧
          x ∈ (survey (.below n addresses c.keys) c.value).places ∧
          x.path = (Position.below n addresses c.keys).path ++ rest) := by
  cases henter : p.enter ms with
  | error cause => simp [survey_refused henter] at hx
  | ok entered =>
    obtain ⟨n, addresses⟩ := entered
    obtain ⟨uri, base, hnode, -⟩ := Position.enter_spec henter
    refine ⟨n, addresses, rfl, ?_⟩
    rcases mem_places_survey_entered henter hx with rfl | ⟨c, hc, hx, -⟩
    · exact .inl ⟨by simpa using hpath, rfl⟩
    · have hbelow : (Position.below n addresses c.keys).path = p.path ++ c.keys := by
        simp [Position.below, hnode]
      obtain ⟨rest, hrest⟩ := path_of_mem_places _ _ x hx
      refine .inr ⟨c, hc, rest, ?_, hx, hrest.symm⟩
      rw [hbelow, hpath, List.append_assoc] at hrest
      exact (List.append_cancel_left hrest).symm

/-- A place is at a location of the value. -/
lemma location_of_mem_places (p : Position) (value : Json) :
    ∀ x ∈ (survey p value).places, ∀ path, x.path = p.path ++ path → ∃ v, Location value path v := by
  induction p, value using survey_induction with
  | plain p value hplain =>
    intro x hx path hpath
    rw [survey_plain hplain, List.mem_singleton] at hx
    subst hx
    obtain rfl : path = [] := by simpa using hpath
    exact ⟨value, .here value⟩
  | object p ms ih =>
    intro x hx path hpath
    obtain ⟨n, addresses, henter, ⟨rfl, -⟩ | ⟨c, hc, rest, rfl, hx, hrest⟩⟩ := mem_places_obj hx hpath
    · exact ⟨.obj ms, .here _⟩
    · obtain ⟨v, hlocation⟩ := ih c hc _ x hx rest hrest
      exact ⟨v, .deeper hc hlocation⟩

/-- A node is in the document and on the path of its place. -/
lemma site_of_mem_places (p : Position) (value : Json) :
    ∀ x ∈ (survey p value).places, ∀ n, x.entry = .node n → n.site.document = p.document ∧ n.site.path = x.path := by
  induction p, value using survey_induction with
  | plain p value hplain =>
    intro x hx n hn
    rw [survey_plain hplain, List.mem_singleton] at hx
    subst hx
    cases hn
  | object p ms ih =>
    intro x hx n hn
    obtain ⟨path, hpath⟩ := path_of_mem_places _ _ x hx
    obtain ⟨m, addresses, henter, ⟨-, rfl⟩ | ⟨c, hc, rest, -, hx, -⟩⟩ := mem_places_obj hx hpath.symm
    all_goals obtain ⟨uri, base, hnode, -⟩ := Position.enter_spec henter
    · obtain rfl : m = n := Entry.node.inj hn
      rw [hnode, Position.site_nodeWith]
      exact ⟨rfl, rfl⟩
    · obtain ⟨hdocument, hsite⟩ := ih c hc _ x hx n hn
      refine ⟨?_, hsite⟩
      rw [hdocument, Position.below, hnode, Position.site_nodeWith]

/-- An address of a place is one of the position with the way from there, or belongs to a base that an `$id` on
the way introduces. -/
lemma address_of_mem_places (p : Position) (value : Json) :
    ∀ x ∈ (survey p value).places, ∀ path, x.path = p.path ++ path → ∀ base pointer, (base, pointer) ∈ x.addresses →
      (∃ above, (base, above) ∈ p.addresses ∧ pointer = above ++ path) ∨
        ∃ start, value.Introduces p.base start base ∧ path = start ++ pointer := by
  induction p, value using survey_induction with
  | plain p value hplain =>
    intro x hx path hpath base pointer ha
    rw [survey_plain hplain, List.mem_singleton] at hx
    subst hx
    obtain rfl : path = [] := by simpa using hpath
    exact .inl ⟨pointer, ha, (List.append_nil _).symm⟩
  | object p ms ih =>
    intro x hx path hpath base pointer ha
    obtain ⟨n, addresses, henter, hplace⟩ := mem_places_obj hx hpath
    obtain ⟨hbase, haddresses⟩ := Position.enter_base henter
    -- an address of the node is inherited, or the base that its object introduces
    have hnode {pointer : List String} (h : (base, pointer) ∈ addresses) :
        (base, pointer) ∈ p.addresses ∨ pointer = [] ∧ ms.ownBase? p.base = some base := by
      rw [haddresses, List.mem_append, List.mem_map] at h
      rcases h with h | ⟨own, hown, heq⟩
      · exact .inl h
      · obtain ⟨rfl, rfl⟩ := Prod.mk.inj heq
        exact .inr ⟨rfl, Option.mem_toList.1 hown⟩
    rcases hplace with ⟨rfl, rfl⟩ | ⟨c, hc, rest, rfl, hx, hrest⟩
    · rcases hnode ha with ha | ⟨rfl, hown⟩
      · exact .inl ⟨pointer, ha, (List.append_nil _).symm⟩
      · exact .inr ⟨[], .here hown, rfl⟩
    · rcases ih c hc _ x hx rest hrest base pointer ha with ⟨above, habove, rfl⟩ | ⟨start, hstart, rfl⟩
      · obtain ⟨⟨base', above'⟩, habove', heq⟩ := List.mem_map.1 habove
        obtain ⟨rfl, rfl⟩ := Prod.mk.inj heq
        rcases hnode habove' with h | ⟨rfl, hown⟩
        · exact .inl ⟨above', h, List.append_assoc _ _ _⟩
        · exact .inr ⟨[], .here hown, rfl⟩
      · refine .inr ⟨c.keys ++ start, .deeper hc ?_, (List.append_assoc _ _ _).symm⟩
        rw [← hbase]
        exact hstart

/-- The addresses of the position reach every place, with the way from there. -/
lemma mem_addresses_of_inherited (p : Position) (value : Json) {base : String} {above : List String}
    (h : (base, above) ∈ p.addresses) :
    ∀ x ∈ (survey p value).places, ∀ path, x.path = p.path ++ path → (base, above ++ path) ∈ x.addresses := by
  induction p, value using survey_induction generalizing above with
  | plain p value hplain =>
    intro x hx path hpath
    rw [survey_plain hplain, List.mem_singleton] at hx
    subst hx
    obtain rfl : path = [] := by simpa using hpath
    rwa [List.append_nil]
  | object p ms ih =>
    intro x hx path hpath
    obtain ⟨n, addresses, henter, hplace⟩ := mem_places_obj hx hpath
    have hnode : (base, above) ∈ addresses := by
      rw [(Position.enter_base henter).2]
      exact List.mem_append_left _ h
    rcases hplace with ⟨rfl, rfl⟩ | ⟨c, hc, rest, rfl, hx, hrest⟩
    · rwa [List.append_nil]
    · have hbelow : (base, above ++ c.keys) ∈ (Position.below n addresses c.keys).addresses :=
        List.mem_map.2 ⟨(base, above), hnode, rfl⟩
      rw [← List.append_assoc]
      exact ih c hc _ hbelow x hx rest hrest

instance : Std.Symm Members.Diverge :=
  ⟨fun _ _ h => ⟨h.2, h.1⟩⟩

/-- A path leads through one subschema at most. -/
lemma Members.Spread.eq_of_prefix {keywords : List String} {cs : List Subschema} (h : Members.Spread keywords cs)
    {c d : Subschema} (hc : c ∈ cs) (hd : d ∈ cs) {path : List String} (hcp : c.keys <+: path)
    (hdp : d.keys <+: path) : c = d := by
  by_contra hne
  obtain ⟨hcd, hdc⟩ := h.diverge.forall hc hd hne
  rcases List.prefix_or_prefix_of_prefix hcp hdp with h | h
  · exact hcd h
  · exact hdc h

/-- A base that an `$id` introduces reaches every place below, with the way from the `$id`. -/
lemma mem_addresses_of_introduces {base own : String} {value : Json} {start : List String}
    (h : value.Introduces base start own) (hapart : value.keysApart = true) {p : Position} (hbase : p.base = base) :
    ∀ x ∈ (survey p value).places, ∀ rest, x.path = p.path ++ (start ++ rest) → (own, rest) ∈ x.addresses := by
  induction h generalizing p with
  | @here base own ms hown =>
    intro x hx rest hpath
    obtain ⟨n, addresses, henter, hplace⟩ := mem_places_obj hx hpath
    have hnode : (own, []) ∈ addresses := by
      rw [(Position.enter_base henter).2, hbase, hown]
      exact List.mem_append_right _ (List.mem_singleton_self _)
    rcases hplace with ⟨hroot, rfl⟩ | ⟨c, hc, rest', hrest, hx, hpath'⟩
    · obtain rfl : rest = [] := hroot
      exact hnode
    · have hbelow : (own, c.keys) ∈ (Position.below n addresses c.keys).addresses :=
        List.mem_map.2 ⟨(own, []), hnode, rfl⟩
      obtain rfl : rest = c.keys ++ rest' := hrest
      exact mem_addresses_of_inherited _ _ hbelow x hx rest' hpath'
  | @deeper base own ms c start hc _ ih =>
    intro x hx rest hpath
    obtain ⟨n, addresses, henter, hplace⟩ := mem_places_obj hx hpath
    have hspread := Members.spread_subschemas hapart
    rcases hplace with ⟨hroot, rfl⟩ | ⟨d, hd, rest', hrest, hx, hpath'⟩
    · obtain ⟨keyword, -, keys, hkeys⟩ := hspread.under c hc
      rw [hkeys] at hroot
      cases hroot
    · rw [List.append_assoc] at hrest
      obtain rfl : c = d := hspread.eq_of_prefix hc hd (List.prefix_append _ _)
        (hrest.symm ▸ List.prefix_append _ _)
      have hrest' : start ++ rest = rest' := List.append_cancel_left hrest
      refine ih (Members.keysApart_of_mem_subschemas hapart hc) ?_ x hx rest (hrest' ▸ hpath')
      rw [← hbase]
      exact (Position.enter_base henter).1

/-- Where a base is introduced, there is an object. -/
lemma Json.Introduces.location {base own : String} {value : Json} {path : List String}
    (h : value.Introduces base path own) : ∃ ms, Location value path (.obj ms) := by
  induction h with
  | @here base own ms hown => exact ⟨ms, .here _⟩
  | deeper hc _ ih =>
    obtain ⟨ms, hlocation⟩ := ih
    exact ⟨ms, .deeper hc hlocation⟩

/-- The root of a document introduces no base that is its URI. -/
lemma Json.Introduces.ne_of_root {base own : String} {value : Json} {path : List String}
    (h : value.Introduces base path own) (hapart : value.keysApart = true) (hpath : path = []) : own ≠ base := by
  cases h with
  | here hown =>
    obtain ⟨id, -, hown⟩ := Option.bind_eq_some_iff.1 hown
    obtain ⟨uri, -, hown⟩ := Option.bind_eq_some_iff.1 hown
    obtain ⟨⟨found, fragment⟩, -, hown⟩ := Option.bind_eq_some_iff.1 hown
    by_cases haway : found ≠ "" ∧ found ≠ base
    · obtain rfl : found = own := Option.some.inj ((if_pos haway).symm.trans hown)
      exact haway.2
    · cases (if_neg haway).symm.trans hown
  | deeper hc _ =>
    obtain ⟨keyword, -, keys, hkeys⟩ := (Members.spread_subschemas hapart).under _ hc
    rw [hkeys] at hpath
    cases hpath

/-! ## One place for each address -/

section Root

variable {document : Json} {uri : String}

/-- The addresses of a place of a document are those of its location. -/
lemma mem_addresses_iff (hapart : document.keysApart = true) {x : Place}
    (hx : x ∈ (survey (.root uri) document).places) (address : Address) :
    address ∈ x.addresses ↔ document.AddressOf uri x.path address := by
  obtain ⟨base, pointer⟩ := address
  constructor
  · intro h
    rcases address_of_mem_places (.root uri) document x hx x.path rfl base pointer h with
      ⟨above, habove, rfl⟩ | ⟨start, hstart, hpath⟩
    · obtain ⟨rfl, rfl⟩ := Prod.mk.inj (List.mem_singleton.1 habove)
      exact .root x.path
    · rw [hpath]
      exact .own hstart
  · intro h
    generalize hpath : x.path = path at h
    cases h with
    | root => exact mem_addresses_of_inherited (.root uri) document (List.mem_singleton_self _) x hx _ hpath
    | own hstart => exact mem_addresses_of_introduces hstart hapart rfl x hx _ hpath

/-- With the bases of a document apart, an address belongs to one path only. -/
lemma Json.BasesApart.path_eq (h : document.BasesApart uri) {path path' : List String} {address : Address}
    (hp : document.AddressOf uri path address) (hp' : document.AddressOf uri path' address) : path = path' := by
  cases hp with
  | root =>
    cases hp' with
    | root => rfl
    | own hstart => exact absurd rfl (h.fresh hstart)
  | own hstart =>
    cases hp' with
    | root => exact absurd rfl (h.fresh hstart)
    | own hstart' => rw [h.distinct hstart hstart']

/-- Whether the bases of a document are apart can be seen from its survey: no base is introduced at two places. -/
lemma Json.BasesApart.of_places (hapart : document.keysApart = true)
    (hhalt : (survey (.root uri) document).halt? = none)
    (h : ∀ x ∈ (survey (.root uri) document).places, ∀ y ∈ (survey (.root uri) document).places,
      ∀ a ∈ x.addresses, a.2 = [] → a ∈ y.addresses → x.path = y.path) : document.BasesApart uri := by
  have hplace {path : List String} {own : String} (hown : document.Introduces uri path own) :
      ∃ x ∈ (survey (.root uri) document).places, x.path = path ∧ (own, []) ∈ x.addresses := by
    obtain ⟨ms, hlocation⟩ := hown.location
    obtain ⟨x, hx, hpath, -⟩ := exists_place_of_location hhalt hlocation
    refine ⟨x, hx, hpath, mem_addresses_of_introduces hown hapart rfl x hx [] ?_⟩
    rw [hpath, List.append_nil]
  constructor
  · intro path path' own hown hown'
    obtain ⟨x, hx, rfl, hxa⟩ := hplace hown
    obtain ⟨y, hy, rfl, hya⟩ := hplace hown'
    exact h x hx y hy _ hxa rfl hya
  · rintro path own hown rfl
    obtain ⟨x, hx, rfl, hxa⟩ := hplace hown
    obtain ⟨r, hr, hroot, -⟩ := exists_place_of_location hhalt (.here document)
    have hra : (own, []) ∈ r.addresses := mem_addresses_of_inherited (.root own) document
      (List.mem_singleton_self _) r hr [] hroot
    exact hown.ne_of_root hapart ((h x hx r hr _ hxa rfl hra).trans hroot) rfl

end Root

namespace Store

/-- A document that is loaded under a URI that was not used before leaves its survey, which came to its end. -/
lemma loads_of_load {document : Json} {source uri fragment : String} {root : Entry} {s t : Store}
    (hsplit : Uri.defragment source = .ok (uri, fragment)) (hnew : s.hasLoaded uri = false)
    (hload : outcome (load document source) s = (.ok root, t)) :
    t.loads = s.loads ++ [⟨uri, survey (.root uri) document⟩] ∧ (survey (.root uri) document).halt? = none := by
  have hloading := loading_load hsplit document s
  rw [hload] at hloading
  cases hloading with
  | known used =>
    rw [hnew] at used
    cases used
  | loaded new object ends => exact ⟨rfl, ends⟩

lemma places_of_load_empty {document : Json} {source uri fragment : String} {root : Entry} {s : Store}
    (hsplit : Uri.defragment source = .ok (uri, fragment))
    (hload : outcome (load document source) empty = (.ok root, s)) :
    s.places = (survey (.root uri) document).places ∧ (survey (.root uri) document).halt? = none := by
  obtain ⟨hloads, hhalt⟩ := loads_of_load hsplit rfl hload
  refine ⟨?_, hhalt⟩
  rw [places, hloads]
  exact List.append_nil _

/-- In a store with one document, whose bases are apart, all addresses of a location lead to the entry of that
location, and there is no other address. -/
theorem at?_of_load {document : Json} {source uri fragment : String} {root : Entry} {s : Store}
    (hapart : document.keysApart = true) (hsplit : Uri.defragment source = .ok (uri, fragment))
    (hload : outcome (load document source) empty = (.ok root, s)) (hbases : document.BasesApart uri) :
    (∀ path value, Location document path value →
      ∃ entry, entry.StandsFor value ∧ (∀ n, entry = .node n → n.site.document = uri ∧ n.site.path = path) ∧
        ∀ address, document.AddressOf uri path address → s.at? address = some entry) ∧
    ∀ address entry, s.at? address = some entry →
      ∃ path value, Location document path value ∧ document.AddressOf uri path address := by
  obtain ⟨hplaces, hhalt⟩ := places_of_load_empty hsplit hload
  have hpaths : (s.places.map (·.path)).Nodup := by
    rw [hplaces]
    exact List.pairwise_map.2 (pairwise_path_survey (.root uri) hapart)
  have haddresses {x : Place} (hx : x ∈ s.places) (address : Address) :
      address ∈ x.addresses ↔ document.AddressOf uri x.path address :=
    mem_addresses_iff hapart (hplaces ▸ hx) address
  constructor
  · intro path value hlocation
    obtain ⟨x, hx, hpath, hstands⟩ := exists_place_of_location hhalt hlocation
    obtain rfl : x.path = path := hpath
    refine ⟨x.entry, hstands, site_of_mem_places (.root uri) document x hx, fun address haddress => ?_⟩
    have hxs : x ∈ s.places := hplaces ▸ hx
    obtain ⟨e, he⟩ := isSome_at? hxs ((haddresses hxs address).2 haddress)
    obtain ⟨y, hy, hya, rfl⟩ := of_at? he
    have hsame : x.path = y.path := hbases.path_eq haddress ((haddresses hy address).1 hya)
    rw [he, List.inj_on_of_nodup_map hpaths hxs hy hsame]
  · intro address entry he
    obtain ⟨x, hx, hxa, -⟩ := of_at? he
    obtain ⟨value, hlocation⟩ := location_of_mem_places (.root uri) document x (hplaces ▸ hx) x.path rfl
    exact ⟨x.path, value, hlocation, (haddresses hx address).1 hxa⟩

/-! ### A base within a base -/

namespace Nested

def inner : Members :=
  [("$id", .str "deep/inner.json#top"), ("items", .arr [.obj [("$id", .str "#tail")], .bool true])]

def members : Members :=
  [("$id", .str "outer.json"), ("properties", .obj [("a/b", .obj inner), ("", .null)])]

def uri : String := "http://h/doc.json"

def source : String := "http://h/doc.json#part"

def store : Store :=
  (outcome (load (.obj members) source) empty).2

lemma introduces_outer : (Json.obj members).Introduces uri [] "http://h/outer.json" :=
  .here (by decide +kernel)

lemma introduces_inner : (Json.obj members).Introduces uri ["properties", "a/b"] "http://h/deep/inner.json" := by
  have hproperty : ⟨["properties", "a/b"], .obj inner⟩ ∈ Members.subschemas members :=
    Members.mem_subschemas_of_property (m := ("a/b", .obj inner)) rfl List.mem_cons_self
  exact .deeper hproperty (.here (by decide +kernel))

lemma basesApart : (Json.obj members).BasesApart uri :=
  .of_places (by decide) (Option.isNone_iff_eq_none.1 (by decide +kernel)) (by decide +kernel)

end Nested

/-- The inner schema is found in three ways, from the root and from either identifier. -/
theorem at?_of_load_of_nested_bases :
    (Json.obj Nested.members).BasesApart Nested.uri ∧
      ∃ root, outcome (load (.obj Nested.members) Nested.source) empty = (.ok root, Nested.store) ∧
        ∃ entry : Entry, entry.StandsFor (.obj Nested.inner) ∧
          Nested.store.at? ("http://h/doc.json", ["properties", "a/b"]) = some entry ∧
          Nested.store.at? ("http://h/outer.json", ["properties", "a/b"]) = some entry ∧
          Nested.store.at? ("http://h/deep/inner.json", []) = some entry := by
  have hsplit : Uri.defragment Nested.source = .ok (Nested.uri, "part") := by decide +kernel
  obtain ⟨root, hload⟩ : ∃ root, outcome (load (.obj Nested.members) Nested.source) empty = (.ok root, Nested.store) :=
    exists_of_toBool (by decide +kernel)
  have hlocation : Location (.obj Nested.members) ["properties", "a/b"] (.obj Nested.inner) := by
    have hproperty : ⟨["properties", "a/b"], .obj Nested.inner⟩ ∈ Members.subschemas Nested.members :=
      Members.mem_subschemas_of_property (m := ("a/b", .obj Nested.inner)) rfl List.mem_cons_self
    exact .deeper hproperty (.here _)
  obtain ⟨entry, hstands, -, hfound⟩ :=
    (at?_of_load (by decide) hsplit hload Nested.basesApart).1 _ _ hlocation
  have hinner : (Json.obj Nested.members).AddressOf Nested.uri (["properties", "a/b"] ++ [])
      ("http://h/deep/inner.json", []) := .own Nested.introduces_inner
  exact ⟨Nested.basesApart, root, hload, entry, hstands, hfound _ (.root _),
    hfound _ (.own Nested.introduces_outer), hfound _ hinner⟩

end Store

end SchemaAccessors
