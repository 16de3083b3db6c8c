import Mathlib.Data.List.Nodup
import Mathlib.Data.Nat.Basic
import SchemaAccessors.Proofs.Keys
import SchemaAccessors.Proofs.Survey

/-!
# Locations of a document

A location is a way from the root of a document, over keywords and keys, to a subschema. A survey that comes to
its end has a place for each of them, and no survey has two places on one path: no subschema is on the way to
another of the same object, since no keyword is looked at twice and no object has a key twice.
-/

namespace SchemaAccessors

/-- In a document, the keywords and keys of a path lead from the root to a subschema with some value. -/
inductive Location : Json → List String → Json → Prop
  | here (value : Json) : Location value [] value
  | deeper {ms : Members} {c : Subschema} {path : List String} {value : Json} (hc : c ∈ Members.subschemas ms)
      (h : Location c.value path value) : Location (.obj ms) (c.keys ++ path) value

/-- No schema of a document has an identifier, which is a text under `$id` or `$anchor`. Properties and
definitions may have these names. -/
def Json.Unidentified (document : Json) : Prop :=
  ∀ path (ms : Members), Location document path (.obj ms) →
    (ms.get? "$id").bind Json.str? = none ∧ (ms.get? "$anchor").bind Json.str? = none

lemma Json.Unidentified.of_subschema {ms : Members} (h : Json.Unidentified (.obj ms)) {c : Subschema}
    (hc : c ∈ Members.subschemas ms) : c.value.Unidentified :=
  fun _ _ hlocation => h _ _ (.deeper hc hlocation)

/-! ## Every location has a place -/

/-- An entry stands for a value: the node of an object has its members, and any other value is kept. -/
def Entry.StandsFor : Entry → Json → Prop
  | .node n, value => value = .obj n.members
  | .plain kept, value => value = kept ∧ ∀ ms, value ≠ .obj ms

/-- A survey that is not halted has a place for every location, and what it holds stands for the value there. -/
theorem exists_place_of_location {p : Position} {document : Json} (h : (survey p document).halt? = none)
    {path : List String} {value : Json} (hlocation : Location document path value) :
    ∃ x ∈ (survey p document).places, x.path = p.path ++ path ∧ x.entry.StandsFor value := by
  induction hlocation generalizing p with
  | here value =>
    by_cases hv : ∃ ms, value = .obj ms
    · obtain ⟨ms, rfl⟩ := hv
      cases henter : p.enter ms with
      | error cause => simp [survey_refused henter] at h
      | ok entered =>
        obtain ⟨n, addresses⟩ := entered
        obtain ⟨uri, base, rfl, -⟩ := Position.enter_spec henter
        refine ⟨⟨p.path, addresses, .node (p.nodeWith ⟨p.document, p.path, uri, base, ms⟩)⟩, ?_,
          (List.append_nil p.path).symm, ?_⟩
        · rw [survey_entered henter]
          exact Survey.places_andThen_left List.mem_cons_self
        · simp [Entry.StandsFor, SchemaNode.members]
    · have hplain : ∀ ms, value ≠ .obj ms := fun ms hms => hv ⟨ms, hms⟩
      rw [survey_plain hplain]
      exact ⟨_, List.mem_cons_self, (List.append_nil p.path).symm, rfl, hplain⟩
  | @deeper ms c path value hc hlocation ih =>
    cases henter : p.enter ms with
    | error cause => simp [survey_refused henter] at h
    | ok entered =>
      obtain ⟨n, addresses⟩ := entered
      obtain ⟨uri, base, hnode, -⟩ := Position.enter_spec henter
      rw [survey_entered henter] at h ⊢
      obtain ⟨-, hparts, hplaces⟩ := Survey.halt?_of_andThen h
      obtain ⟨hpart, hsubset⟩ := Survey.of_sequence_not_halted hparts _ (List.mem_map_of_mem hc)
      obtain ⟨x, hx, hpath, hentry⟩ := ih hpart
      refine ⟨x, ?_, ?_, hentry⟩
      · rw [hplaces]
        exact List.mem_append_right _ (hsubset hx)
      · rw [hpath, ← List.append_assoc]
        simp [Position.below, hnode]

/-- Whether a document is without identifiers can be seen from its nodes. -/
lemma Json.unidentified_of_nodes {p : Position} {document : Json} (h : (survey p document).halt? = none)
    (hnodes : ∀ n ∈ (survey p document).nodes,
      (n.members.get? "$id").bind Json.str? = none ∧ (n.members.get? "$anchor").bind Json.str? = none) :
    document.Unidentified := by
  intro path ms hlocation
  obtain ⟨x, hx, -, hentry⟩ := exists_place_of_location h hlocation
  cases hn : x.entry with
  | node n =>
    rw [hn] at hentry
    obtain rfl : ms = n.members := Json.obj.inj hentry
    exact hnodes n (Survey.mem_nodes.2 ⟨x, hx, hn⟩)
  | plain value =>
    rw [hn] at hentry
    exact absurd rfl (hentry.2 ms)

/-! ## The values of subschemas -/

namespace Json

lemma keysApart_of_get? {ms : Members} (h : (obj ms).keysApart = true) {key : String} {value : Json}
    (hvalue : ms.get? key = some value) : value.keysApart = true :=
  (keysApart_obj.1 h).2 (key, value) (Members.mem_of_get? hvalue)

end Json

namespace Members

lemma mem_listed {keyword : String} {values : List Json} {c : Subschema} (h : c ∈ listed keyword values) :
    c.value ∈ values := by
  obtain ⟨i, hi, rfl⟩ := List.mem_mapIdx.1 h
  exact List.getElem_mem hi

/-- The value of a subschema is that of a keyword, or one of the values that it holds. -/
lemma value_of_mem_subschemas {ms : Members} {c : Subschema} (h : c ∈ ms.subschemas) :
    ∃ keyword value, ms.get? keyword = some value ∧
      (c.value = value ∨ (∃ xs, value = .arr xs ∧ c.value ∈ xs) ∨
        ∃ named, value = .obj named ∧ ∃ m ∈ named, c.value = m.2) := by
  simp only [subschemas, List.mem_append, List.mem_filterMap, List.mem_flatMap, Option.map_eq_some_iff] at h
  rcases h with (((⟨k, -, v, hv, rfl⟩ | ⟨k, -, hk⟩) | ⟨k, -, hk⟩) | hp) | hi
  · exact ⟨k, v, hv, .inl rfl⟩
  · unfold named at hk
    split at hk
    · next ns hns =>
      obtain ⟨m, hm, rfl⟩ := List.mem_map.1 hk
      exact ⟨k, .obj ns, hns, .inr (.inr ⟨ns, rfl, m, (List.mem_filter.1 hm).1, rfl⟩)⟩
    · cases hk
  · unfold inLists at hk
    split at hk
    · next vs hvs => exact ⟨k, .arr vs, hvs, .inr (.inl ⟨vs, rfl, mem_listed hk⟩)⟩
    · cases hk
  · unfold propertySchemas at hp
    split at hp
    · next ps hps =>
      obtain ⟨m, hm, rfl⟩ := List.mem_map.1 hp
      exact ⟨"properties", .obj ps, hps, .inr (.inr ⟨ps, rfl, m, hm, rfl⟩)⟩
    · cases hp
  · unfold itemSchemas at hi
    split at hi
    · next vs hvs => exact ⟨"items", .arr vs, hvs, .inr (.inl ⟨vs, rfl, mem_listed hi⟩)⟩
    · next v _ hv =>
      rw [List.mem_singleton.1 hi]
      exact ⟨"items", v, hv, .inl rfl⟩
    · cases hi

lemma keysApart_of_mem_subschemas {ms : Members} (h : (Json.obj ms).keysApart = true) {c : Subschema}
    (hc : c ∈ ms.subschemas) : c.value.keysApart = true := by
  obtain ⟨keyword, value, hget, hvalue | ⟨xs, rfl, hx⟩ | ⟨named, rfl, m, hm, hvalue⟩⟩ :=
    value_of_mem_subschemas hc
  · rw [hvalue]
    exact Json.keysApart_of_get? h hget
  · exact Json.keysApart_arr.1 (Json.keysApart_of_get? h hget) _ hx
  · rw [hvalue]
    exact (Json.keysApart_obj.1 (Json.keysApart_of_get? h hget)).2 m hm

/-! ## Subschemas that are not on the way to each other -/

/-- Two subschemas part ways: neither is on the way to the other. -/
def Diverge (c d : Subschema) : Prop :=
  ¬ c.keys <+: d.keys ∧ ¬ d.keys <+: c.keys

/-- Some subschemas under some keywords, each parting ways with all others. -/
structure Spread (keywords : List String) (cs : List Subschema) : Prop where
  under : ∀ c ∈ cs, ∃ keyword ∈ keywords, ∃ rest, c.keys = keyword :: rest
  diverge : cs.Pairwise Diverge

lemma Diverge.of_keywords {c d : Subschema} {k l : String} {ks ls : List String} (hc : c.keys = k :: ks)
    (hd : d.keys = l :: ls) (hne : k ≠ l) : Diverge c d := by
  unfold Diverge
  rw [hc, hd, List.cons_prefix_cons, List.cons_prefix_cons]
  exact ⟨fun h => hne h.1, fun h => hne h.1.symm⟩

/-- Keys of the same length part ways if they are different. -/
lemma Diverge.of_length {c d : Subschema} (hlength : c.keys.length = d.keys.length) (hne : c.keys ≠ d.keys) :
    Diverge c d :=
  ⟨fun h => hne (h.eq_of_length hlength), fun h => hne (h.eq_of_length hlength.symm).symm⟩

namespace Spread

variable {ks ls : List String} {cs ds : List Subschema}

lemma nil (keywords : List String) : Spread keywords [] :=
  ⟨fun _ hc => (List.not_mem_nil hc).elim, List.Pairwise.nil⟩

lemma singleton (keyword : String) (value : Json) : Spread [keyword] [⟨[keyword], value⟩] := by
  refine ⟨fun c hc => ?_, List.pairwise_singleton _ _⟩
  rw [List.mem_singleton.1 hc]
  exact ⟨keyword, List.mem_singleton_self _, [], rfl⟩

lemma append (h : Spread ks cs) (h' : Spread ls ds) (hdisjoint : ∀ k ∈ ks, k ∉ ls) :
    Spread (ks ++ ls) (cs ++ ds) := by
  constructor
  · intro c hc
    rcases List.mem_append.1 hc with hc | hc
    · obtain ⟨k, hk, hkeys⟩ := h.under c hc
      exact ⟨k, List.mem_append_left _ hk, hkeys⟩
    · obtain ⟨l, hl, hkeys⟩ := h'.under c hc
      exact ⟨l, List.mem_append_right _ hl, hkeys⟩
  · refine List.pairwise_append.2 ⟨h.diverge, h'.diverge, fun c hc d hd => ?_⟩
    obtain ⟨k, hk, _, hckeys⟩ := h.under c hc
    obtain ⟨l, hl, _, hdkeys⟩ := h'.under d hd
    exact .of_keywords hckeys hdkeys fun heq => hdisjoint k hk (heq ▸ hl)

lemma flatMap {parts : String → List Subschema} (hks : ks.Nodup) (h : ∀ k ∈ ks, Spread [k] (parts k)) :
    Spread ks (ks.flatMap parts) := by
  induction ks with
  | nil => exact nil []
  | cons k ks ih =>
    obtain ⟨hnot, hrest⟩ := List.nodup_cons.1 hks
    have hfirst := h k List.mem_cons_self
    have htail := ih hrest fun l hl => h l (List.mem_cons_of_mem k hl)
    rw [List.flatMap_cons]
    refine append hfirst htail fun l hl => ?_
    rwa [List.mem_singleton.1 hl]

/-- Subschemas with keys of their own below one keyword. -/
lemma of_keys (keyword : String) {cs : List Subschema} (key : Subschema → String)
    (hkeys : ∀ c ∈ cs, c.keys = [keyword, key c]) (hnodup : (cs.map key).Nodup) : Spread [keyword] cs := by
  refine ⟨fun c hc => ⟨keyword, List.mem_singleton_self _, [key c], hkeys c hc⟩, ?_⟩
  refine (List.pairwise_map.1 hnodup).imp_of_mem fun {c d} hc hd hne => ?_
  refine .of_length ?_ fun heq => hne ?_
  · rw [hkeys c hc, hkeys d hd]
    rfl
  · rw [hkeys c hc, hkeys d hd] at heq
    exact (List.cons.inj (List.cons.inj heq).2).1

end Spread

/-- Positions in a list are written differently. -/
lemma repr_injective : Function.Injective Nat.repr := by
  intro i j h
  have hread := congrArg (fun digits : String => Nat.ofDigitChars 10 digits.toList 0) h
  simpa only [Nat.toList_repr, Nat.ofDigitChars_ten_toDigits] using hread

lemma spread_listed (keyword : String) (values : List Json) : Spread [keyword] (listed keyword values) := by
  refine .of_keys keyword (fun c => c.keys.getLastD "") ?_ ?_
  · intro c hc
    obtain ⟨i, hi, rfl⟩ := List.mem_mapIdx.1 hc
    rfl
  · have hkeys : (listed keyword values).map (fun c => c.keys.getLastD "")
        = (List.range values.length).map Nat.repr := by
      refine List.ext_getElem (by simp [listed]) fun i hi hi' => ?_
      simp [listed]
    rw [hkeys]
    exact List.nodup_range.map repr_injective

/-- Members of an object below a keyword. -/
lemma spread_members (keyword : String) {ms : Members} (h : (ms.map (·.1)).Nodup) :
    Spread [keyword] (ms.map fun m => ⟨[keyword, m.1], m.2⟩) := by
  refine .of_keys keyword (fun c => c.keys.getLastD "") ?_ ?_
  · intro c hc
    obtain ⟨m, -, rfl⟩ := List.mem_map.1 hc
    rfl
  · rwa [List.map_map]

variable {ms : Members}

lemma spread_named (h : (Json.obj ms).keysApart = true) (keyword : String) :
    Spread [keyword] (ms.named keyword) := by
  unfold named
  split
  · next ns hns =>
    have hnodup := (Json.keysApart_obj.1 (Json.keysApart_of_get? h hns)).1
    exact spread_members keyword (hnodup.sublist (List.filter_sublist.map _))
  · exact .nil _

lemma spread_inLists (ms : Members) (keyword : String) : Spread [keyword] (ms.inLists keyword) := by
  unfold inLists
  split
  · exact spread_listed keyword _
  · exact .nil _

lemma spread_propertySchemas (h : (Json.obj ms).keysApart = true) :
    Spread ["properties"] ms.propertySchemas := by
  unfold propertySchemas
  split
  · next ps hps => exact spread_members "properties" (Json.keysApart_obj.1 (Json.keysApart_of_get? h hps)).1
  · exact .nil _

lemma spread_itemSchemas (ms : Members) : Spread ["items"] ms.itemSchemas := by
  unfold itemSchemas
  split
  · exact spread_listed "items" _
  · exact .singleton "items" _
  · exact .nil _

/-- No subschema of an object is on the way to another. -/
theorem spread_subschemas (h : (Json.obj ms).keysApart = true) :
    Spread subschemaKeys ms.subschemas := by
  have hsingle : Spread schemaKeywords
      (schemaKeywords.filterMap fun k => (ms.get? k).map fun value => ⟨[k], value⟩) := by
    rw [List.filterMap_eq_flatMap_toList]
    refine .flatMap (by decide) fun k _ => ?_
    cases ms.get? k with
    | none => exact .nil _
    | some value => exact .singleton k value
  have hnamed : Spread schemaMapKeywords (schemaMapKeywords.flatMap ms.named) :=
    .flatMap (by decide) fun k _ => spread_named h k
  have hlists : Spread schemaListKeywords (schemaListKeywords.flatMap ms.inLists) :=
    .flatMap (by decide) fun k _ => spread_inLists ms k
  have hgroups := ((hsingle.append hnamed (by decide)).append hlists (by decide)).append
    (spread_propertySchemas h) (by decide)
  exact hgroups.append (spread_itemSchemas ms) (by decide)

end Members

/-! ## Paths that are apart -/

/-- What a survey finds lies below where it began. -/
lemma path_of_mem_places (p : Position) (value : Json) :
    ∀ x ∈ (survey p value).places, p.path <+: x.path := by
  induction p, value using survey_induction with
  | plain p value h =>
    intro x hx
    rw [survey_plain h] at hx
    obtain rfl := List.mem_singleton.1 hx
    exact List.prefix_refl _
  | object p ms ih =>
    intro x hx
    cases henter : p.enter ms with
    | error cause => simp [survey_refused henter] at hx
    | ok entered =>
      obtain ⟨n, addresses⟩ := entered
      obtain ⟨uri, base, hnode, -⟩ := Position.enter_spec henter
      rcases mem_places_survey_entered henter hx with rfl | ⟨c, hc, hx, -⟩
      · exact List.prefix_refl _
      · have hbelow : (Position.below n addresses c.keys).path = p.path ++ c.keys := by
          simp [Position.below, hnode]
        have hdeeper := ih c hc _ x hx
        rw [hbelow] at hdeeper
        exact (List.prefix_append _ _).trans hdeeper

/-- A sequence of surveys drops places behind a halt, and adds none. -/
lemma Survey.places_sequence_sublist (parts : List Survey) :
    ((sequence parts).places).Sublist (parts.flatMap (·.places)) := by
  induction parts with
  | nil => exact List.Sublist.refl _
  | cons part parts ih =>
    show ((part.andThen (sequence parts)).places).Sublist _
    rw [List.flatMap_cons]
    unfold andThen
    split
    · exact List.sublist_append_left _ _
    · exact ih.append_left _

/-- No two places of a survey have one path. -/
theorem pairwise_path_survey (p : Position) {value : Json} (h : value.keysApart = true) :
    (survey p value).places.Pairwise fun x y => x.path ≠ y.path := by
  induction p, value using survey_induction with
  | plain p value hplain =>
    rw [survey_plain hplain]
    exact List.pairwise_singleton _ _
  | object p ms ih =>
    cases henter : p.enter ms with
    | error cause =>
      rw [survey_refused henter]
      exact List.Pairwise.nil
    | ok entered =>
      obtain ⟨n, addresses⟩ := entered
      obtain ⟨uri, base, hnode, -⟩ := Position.enter_spec henter
      have hbelow (c : Subschema) : (Position.below n addresses c.keys).path = p.path ++ c.keys := by
        simp [Position.below, hnode]
      have hspread := Members.spread_subschemas h
      have hparts : ((partSurveys n addresses ms).flatMap (·.places)).Pairwise fun x y => x.path ≠ y.path := by
        rw [List.pairwise_flatMap, partSurveys, List.pairwise_map]
        constructor
        · intro part hpart
          obtain ⟨c, hc, rfl⟩ := List.mem_map.1 hpart
          exact ih c hc _ (Members.keysApart_of_mem_subschemas h hc)
        · refine hspread.diverge.imp fun {c d} hdiverge x hx y hy heq => ?_
          -- both paths are one, so the keys of one subschema begin those of the other
          have hxc := path_of_mem_places _ _ x hx
          have hyd := path_of_mem_places _ _ y hy
          rw [hbelow] at hxc hyd
          rw [← heq] at hyd
          rcases List.prefix_or_prefix_of_prefix hxc hyd with hcd | hdc
          · exact hdiverge.1 ((List.prefix_append_right_inj _).1 hcd)
          · exact hdiverge.2 ((List.prefix_append_right_inj _).1 hdc)
      rw [survey_entered henter]
      show (List.Pairwise _ ((⟨p.path, addresses, .node n⟩ : Place) :: _))
      refine List.pairwise_cons.2 ⟨fun x hx heq => ?_, hparts.sublist (Survey.places_sequence_sublist _)⟩
      obtain ⟨part, hpart, hx, -⟩ := Survey.mem_places_sequence hx
      obtain ⟨c, hc, rfl⟩ := List.mem_map.1 hpart
      obtain ⟨k, -, rest, hkeys⟩ := hspread.under c hc
      obtain ⟨more, hmore⟩ := path_of_mem_places _ _ x hx
      rw [hbelow, hkeys, ← heq] at hmore
      simp at hmore

/-! ## Documents without identifiers -/

/-- Without an identifier, a node has the URI of its position, and brings no address. -/
lemma Position.enter_of_unidentified {p : Position} {ms : Members} {n : SchemaNode} {addresses : List Address}
    (hid : (ms.get? "$id").bind Json.str? = none) (h : p.enter ms = .ok (n, addresses)) :
    n = p.nodeWith ⟨p.document, p.path, p.uri, p.base, ms⟩ ∧ addresses = p.addresses := by
  cases Position.entered_of_enter h with
  | away found join split apart =>
    rw [found] at hid
    cases hid
  | near found join split same =>
    rw [found] at hid
    cases hid
  | unidentified absent => exact ⟨rfl, rfl⟩

/-- A node without an anchor has no name but its URI. -/
lemma SchemaNode.names_of_not_anchored {n : SchemaNode} (h : (n.members.get? "$anchor").bind Json.str? = none) :
    n.names = [n.uri] := by
  unfold names
  split
  · next anchor hget =>
    rw [hget] at h
    cases h
  · rfl

/-- Without identifiers, all that a place and its node are found under says where the place is. -/
theorem names_of_unidentified (p : Position) {value : Json} (h : value.Unidentified) :
    ∀ x ∈ (survey p value).places, ∃ path, x.path = p.path ++ path
      ∧ x.addresses = p.addresses.map (fun a => (a.1, a.2 ++ path))
      ∧ ∀ n, x.entry = .node n → n.names = [path.foldl Uri.append p.uri] := by
  induction p, value using survey_induction with
  | plain p value hplain =>
    intro x hx
    rw [survey_plain hplain, List.mem_singleton] at hx
    subst hx
    exact ⟨[], by simp, by simp, fun n hn => nomatch hn⟩
  | object p ms ih =>
    intro x hx
    obtain ⟨hid, hanchor⟩ := h [] ms (.here _)
    cases henter : p.enter ms with
    | error cause => simp [survey_refused henter] at hx
    | ok entered =>
      obtain ⟨n, addresses⟩ := entered
      obtain ⟨hnode, haddresses⟩ := Position.enter_of_unidentified hid henter
      rcases mem_places_survey_entered henter hx with rfl | ⟨c, hc, hx, -⟩
      · refine ⟨[], by simp, by simp [haddresses], fun m hm => ?_⟩
        obtain rfl : n = m := Entry.node.inj hm
        have hmembers : n.members = ms := by simp [hnode, SchemaNode.members]
        have huri : n.uri = p.uri := by simp [hnode, SchemaNode.uri]
        rw [SchemaNode.names_of_not_anchored (by rwa [hmembers]), huri]
        rfl
      · obtain ⟨path, hpath, hfound, hnames⟩ := ih c hc _ (h.of_subschema hc) x hx
        refine ⟨c.keys ++ path, ?_, ?_, fun m hm => ?_⟩
        · rw [hpath, ← List.append_assoc]
          simp [Position.below, hnode]
        · rw [hfound, haddresses]
          simp [Position.below]
        · rw [hnames m hm, List.foldl_append]
          simp [Position.below, hnode, SchemaNode.uri]

end SchemaAccessors
