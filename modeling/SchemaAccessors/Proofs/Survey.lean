import Mathlib.Algebra.Order.BigOperators.Group.List
import Mathlib.Algebra.Order.Group.Nat
import Mathlib.Algebra.Ring.Nat
import Mathlib.Tactic.Common
import SchemaAccessors.Schema.Document

/-!
# What a survey finds

The survey of a document is one recursion over its subschemas. This file states what holds of the nodes that it
finds: they belong to the document, the node that another is written in is found as well, a survey that comes
to its end has a place for every subschema, and there are no more places than the document has values.
-/

namespace SchemaAccessors

/-- The nodes among the places of a survey. -/
def Survey.nodes (s : Survey) : List SchemaNode :=
  s.places.filterMap (·.entry.node?)

namespace Survey

lemma mem_nodes {s : Survey} {n : SchemaNode} : n ∈ s.nodes ↔ ∃ p ∈ s.places, p.entry = .node n := by
  simp only [nodes, List.mem_filterMap]
  constructor
  · rintro ⟨p, hp, hn⟩
    refine ⟨p, hp, ?_⟩
    cases he : p.entry <;> simp_all [Entry.node?]
  · rintro ⟨p, hp, hn⟩
    exact ⟨p, hp, by rw [hn]; rfl⟩

/-! ## One survey after another -/

/-- The surveys of the parts of an object, one after another. -/
def sequence (parts : List Survey) : Survey :=
  parts.foldr andThen nothing

lemma mem_places_andThen {s t : Survey} {p : Place} (h : p ∈ (s.andThen t).places) :
    p ∈ s.places ∨ p ∈ t.places := by
  unfold andThen at h
  split at h
  · exact .inl h
  · exact List.mem_append.1 h

lemma places_andThen_left {s t : Survey} {p : Place} (h : p ∈ s.places) : p ∈ (s.andThen t).places := by
  unfold andThen
  split
  · exact h
  · exact List.mem_append_left _ h

lemma halt?_of_andThen {s t : Survey} (h : (s.andThen t).halt? = none) :
    s.halt? = none ∧ t.halt? = none ∧ (s.andThen t).places = s.places ++ t.places := by
  unfold andThen at h ⊢
  split at h
  · next hs => simp [h] at hs
  · next hs =>
    rw [if_neg hs]
    exact ⟨by simpa using hs, h, rfl⟩

lemma length_places_andThen (s t : Survey) :
    (s.andThen t).places.length ≤ s.places.length + t.places.length := by
  unfold andThen
  split
  · omega
  · simp

/-- A place of a sequence comes from a part, and the part is kept whole. -/
lemma mem_places_sequence {parts : List Survey} {p : Place} (h : p ∈ (sequence parts).places) :
    ∃ part ∈ parts, p ∈ part.places ∧ part.places ⊆ (sequence parts).places := by
  induction parts with
  | nil => simp [sequence, nothing] at h
  | cons part parts ih =>
    change p ∈ (part.andThen (sequence parts)).places at h
    change ∃ part' ∈ part :: parts, p ∈ part'.places ∧ part'.places ⊆ (part.andThen (sequence parts)).places
    by_cases hp : p ∈ part.places
    · exact ⟨part, List.mem_cons_self, hp, fun x => places_andThen_left⟩
    · unfold andThen at h ⊢
      split at h
      · exact absurd h hp
      · next hs =>
        rw [if_neg hs]
        rcases List.mem_append.1 h with h | h
        · exact absurd h hp
        · obtain ⟨part', hm, hx, hsub⟩ := ih h
          exact ⟨part', List.mem_cons_of_mem _ hm, hx, fun x hx => List.mem_append_right _ (hsub hx)⟩

/-- Where nothing halts, every part is surveyed to its end and kept. -/
lemma of_sequence_not_halted {parts : List Survey} (h : (sequence parts).halt? = none) :
    ∀ part ∈ parts, part.halt? = none ∧ part.places ⊆ (sequence parts).places := by
  induction parts with
  | nil => simp
  | cons part parts ih =>
    obtain ⟨h1, h2, h3⟩ := halt?_of_andThen (s := part) (t := sequence parts) h
    have hplaces : (sequence (part :: parts)).places = part.places ++ (sequence parts).places := h3
    intro part' hm
    rw [hplaces]
    rcases List.mem_cons.1 hm with rfl | hm
    · exact ⟨h1, List.subset_append_left _ _⟩
    · obtain ⟨h4, h5⟩ := ih h2 part' hm
      exact ⟨h4, fun x hx => List.mem_append_right _ (h5 hx)⟩

lemma length_places_sequence (parts : List Survey) :
    (sequence parts).places.length ≤ (parts.map (·.places.length)).sum := by
  induction parts with
  | nil => simp [sequence, nothing]
  | cons part parts ih =>
    have h := length_places_andThen part (sequence parts)
    rw [List.map_cons, List.sum_cons]
    exact h.trans (Nat.add_le_add_left ih _)

end Survey

/-! ## The survey as a recursion -/

lemma survey_plain {p : Position} {value : Json} (h : ∀ ms, value ≠ .obj ms) :
    survey p value = ⟨[⟨p.path, p.addresses, .plain value⟩], none⟩ := by
  rw [survey]
  cases value <;> simp_all

lemma survey_refused {p : Position} {ms : Members} {cause : Failure} (h : p.enter ms = .error cause) :
    survey p (.obj ms) = ⟨[], some ⟨p.path, cause⟩⟩ := by
  rw [survey, h]

/-- The surveys of the subschemas of a node. -/
def partSurveys (n : SchemaNode) (addresses : List Address) (ms : Members) : List Survey :=
  (Members.subschemas ms).map fun c => survey (.below n addresses c.keys) c.value

lemma survey_entered {p : Position} {ms : Members} {n : SchemaNode} {addresses : List Address}
    (h : p.enter ms = .ok (n, addresses)) :
    survey p (.obj ms) =
      Survey.andThen ⟨[⟨p.path, addresses, .node n⟩], none⟩ (.sequence (partSurveys n addresses ms)) := by
  rw [survey, h]
  simp only [partSurveys, Survey.sequence]
  congr 2
  rw [List.map_attach_eq_pmap]
  exact List.pmap_eq_map (f := fun c : Subschema => survey (.below n addresses c.keys) c.value) _

/-- A survey of an object that comes to its end begins with the object itself. -/
lemma exists_places_eq_cons {p : Position} {ms : Members} (h : (survey p (.obj ms)).halt? = none) :
    ∃ root rest, (survey p (.obj ms)).places = root :: rest := by
  cases henter : p.enter ms with
  | error cause => simp [survey_refused henter] at h
  | ok entered =>
    rw [survey_entered henter]
    exact ⟨_, _, rfl⟩

/-- Induction along the survey: a value that is no object, or an object with its subschemas at any position. -/
lemma survey_induction {motive : Position → Json → Prop}
    (plain : ∀ p value, (∀ ms, value ≠ .obj ms) → motive p value)
    (object : ∀ p ms, (∀ c ∈ Members.subschemas ms, ∀ q, motive q c.value) → motive p (.obj ms))
    (p : Position) (value : Json) : motive p value := by
  induction hk : sizeOf value using Nat.strongRecOn generalizing p value with
  | ind k ih =>
    by_cases h : ∃ ms, value = .obj ms
    · obtain ⟨ms, rfl⟩ := h
      refine object p ms fun c hc q => ih _ ?_ q c.value rfl
      have h1 := Members.sizeOf_lt_of_mem_subschemas hc
      rw [Members.sizeOf_obj] at hk
      omega
    · exact plain p value fun ms hm => h ⟨ms, hm⟩

/-! ## The node of an object -/

/-- The node with a site at a position. -/
def Position.nodeWith (p : Position) (site : Site) : SchemaNode :=
  match p.parent? with
  | some parent => .inside parent site
  | none => .root site

@[simp] lemma Position.site_nodeWith (p : Position) (site : Site) : (p.nodeWith site).site = site := by
  unfold nodeWith
  cases p.parent? <;> rfl

@[simp] lemma Position.parent?_nodeWith (p : Position) (site : Site) :
    (p.nodeWith site).parent? = p.parent? := by
  unfold nodeWith
  cases p.parent? <;> rfl

/-- What entering an object comes to. An `$id` gives its node a URI, and may introduce a base, which is an address
too. Without one, the node has the URI and the base of its position. -/
inductive Position.Entered (p : Position) (ms : Members) : SchemaNode → List Address → Prop
  | away {id uri own fragment : String} (found : ms.get? "$id" = some (.str id)) (join : Uri.join p.base id = .ok uri)
      (split : Uri.defragment uri = .ok (own, fragment)) (apart : own ≠ "" ∧ own ≠ p.base) :
      Entered p ms (p.nodeWith ⟨p.document, p.path, uri, own, ms⟩) (p.addresses ++ [(own, [])])
  | near {id uri own fragment : String} (found : ms.get? "$id" = some (.str id)) (join : Uri.join p.base id = .ok uri)
      (split : Uri.defragment uri = .ok (own, fragment)) (same : ¬ (own ≠ "" ∧ own ≠ p.base)) :
      Entered p ms (p.nodeWith ⟨p.document, p.path, uri, p.base, ms⟩) p.addresses
  | unidentified (absent : (ms.get? "$id").bind Json.str? = none) :
      Entered p ms (p.nodeWith ⟨p.document, p.path, p.uri, p.base, ms⟩) p.addresses

lemma Position.entered_of_enter {p : Position} {ms : Members} {n : SchemaNode} {addresses : List Address}
    (h : p.enter ms = .ok (n, addresses)) : p.Entered ms n addresses := by
  unfold Position.enter at h
  simp only [bind, Except.bind, pure, Except.pure] at h
  split at h
  · cases h
  split at h
  · next id hid =>
    cases hjoin : Uri.join p.base id with
    | error fault => simp [hjoin, Except.mapError] at h
    | ok uri =>
      cases hsplit : Uri.defragment uri with
      | error fault => simp [hjoin, hsplit, Except.mapError] at h
      | ok parts =>
        simp only [hjoin, hsplit, Except.mapError] at h
        split at h
        all_goals
          simp only [Except.ok.injEq, Prod.mk.injEq] at h
          obtain ⟨rfl, rfl⟩ := h
        · next hapart => exact .away hid hjoin hsplit hapart
        · next hsame => exact .near hid hjoin hsplit hsame
  · next hid =>
    simp only [Except.ok.injEq, Prod.mk.injEq] at h
    obtain ⟨rfl, rfl⟩ := h
    refine .unidentified ?_
    cases hget : ms.get? "$id" with
    | none => rfl
    | some value =>
      cases value with
      | str id => exact absurd hget (hid id)
      | _ => rfl

/-- The node has the base of the position, or a base of its own. -/
lemma Position.enter_spec {p : Position} {ms : Members} {n : SchemaNode} {addresses : List Address}
    (h : p.enter ms = .ok (n, addresses)) :
    ∃ uri base, n = p.nodeWith ⟨p.document, p.path, uri, base, ms⟩ ∧
      (base = p.base ∧ addresses = p.addresses ∨
        base ≠ p.base ∧ addresses = p.addresses ++ [(base, [])]) := by
  cases Position.entered_of_enter h with
  | away found join split apart => exact ⟨_, _, rfl, .inr ⟨apart.2, rfl⟩⟩
  | near found join split same => exact ⟨_, _, rfl, .inl ⟨rfl, rfl⟩⟩
  | unidentified absent => exact ⟨_, _, rfl, .inl ⟨rfl, rfl⟩⟩

lemma Position.members_of_enter {p : Position} {ms : Members} {n : SchemaNode} {addresses : List Address}
    (h : p.enter ms = .ok (n, addresses)) : n.members = ms := by
  obtain ⟨uri, base, hnode, -⟩ := Position.enter_spec h
  rw [hnode, SchemaNode.members, Position.site_nodeWith]

/-! ## Where the nodes are -/

/-- A survey of an object finds its node, and then what the surveys of its parts find. -/
lemma mem_places_survey_entered {p : Position} {ms : Members} {n : SchemaNode} {addresses : List Address}
    (h : p.enter ms = .ok (n, addresses)) {x : Place} (hx : x ∈ (survey p (.obj ms)).places) :
    x = ⟨p.path, addresses, .node n⟩ ∨
      ∃ c ∈ Members.subschemas ms, x ∈ (survey (.below n addresses c.keys) c.value).places ∧
        (survey (.below n addresses c.keys) c.value).places ⊆ (survey p (.obj ms)).places := by
  rw [survey_entered h] at hx ⊢
  rcases Survey.mem_places_andThen hx with hx | hx
  · exact .inl (by simpa using hx)
  · obtain ⟨part, hpart, hx, hsub⟩ := Survey.mem_places_sequence hx
    obtain ⟨c, hc, rfl⟩ := List.mem_map.1 hpart
    refine .inr ⟨c, hc, hx, fun y hy => ?_⟩
    have hy' := hsub hy
    simp only [Survey.andThen, Option.isSome_none, Bool.false_eq_true, if_false]
    exact List.mem_append_right _ hy'

lemma node_mem_survey {p : Position} {ms : Members} {n : SchemaNode} {addresses : List Address}
    (h : p.enter ms = .ok (n, addresses)) : n ∈ (survey p (.obj ms)).nodes := by
  refine Survey.mem_nodes.2 ⟨⟨p.path, addresses, .node n⟩, ?_, rfl⟩
  rw [survey_entered h]
  exact Survey.places_andThen_left List.mem_cons_self

/-- A node of a survey belongs to the document, and what it is written in was found before it, unless the
survey began there. -/
lemma document_and_parent_of_mem_nodes (p : Position) (value : Json) :
    ∀ n ∈ (survey p value).nodes, n.site.document = p.document ∧
      (n.parent? = p.parent? ∨ ∃ m ∈ (survey p value).nodes, n.parent? = some m) := by
  induction p, value using survey_induction with
  | plain p value h =>
    intro n hn
    obtain ⟨x, hx, he⟩ := Survey.mem_nodes.1 hn
    rw [survey_plain h] at hx
    simp_all
  | object p ms ih =>
    intro n hn
    obtain ⟨x, hx, he⟩ := Survey.mem_nodes.1 hn
    cases h : p.enter ms with
    | error cause => simp [survey_refused h] at hx
    | ok entered =>
      obtain ⟨m, addresses⟩ := entered
      obtain ⟨uri, base, hnode, -⟩ := Position.enter_spec h
      rcases mem_places_survey_entered h hx with rfl | ⟨c, hc, hx, hsub⟩
      · obtain rfl : m = n := by simpa using he
        rw [hnode]
        exact ⟨by simp, .inl (by simp)⟩
      · obtain ⟨hdoc, hparent⟩ := ih c hc _ n (Survey.mem_nodes.2 ⟨x, hx, he⟩)
        refine ⟨?_, .inr ?_⟩
        · rw [hdoc, hnode]
          simp [Position.below]
        · rcases hparent with hparent | ⟨m', hm', hparent⟩
          · exact ⟨m, node_mem_survey h, hparent⟩
          · obtain ⟨y, hy, hye⟩ := Survey.mem_nodes.1 hm'
            exact ⟨m', Survey.mem_nodes.2 ⟨y, hsub hy, hye⟩, hparent⟩

/-! ## Every subschema has a place -/

lemma Members.mem_subschemas_of_property {ms properties : Members} (h : ms.get? "properties" = some (.obj properties))
    {m : String × Json} (hm : m ∈ properties) : ⟨["properties", m.1], m.2⟩ ∈ ms.subschemas := by
  simp only [subschemas, List.mem_append, propertySchemas, h]
  exact .inl (.inr (List.mem_map_of_mem hm))

/-- A survey that is not halted has a place for the location that it began at. -/
lemma exists_place_of_not_halted {p : Position} {value : Json} (h : (survey p value).halt? = none) :
    ∃ x ∈ (survey p value).places, x.path = p.path := by
  by_cases hv : ∃ ms, value = .obj ms
  · obtain ⟨ms, rfl⟩ := hv
    cases he : p.enter ms with
    | error cause => simp [survey_refused he] at h
    | ok entered =>
      refine ⟨⟨p.path, entered.2, .node entered.1⟩, ?_, rfl⟩
      rw [survey_entered he]
      exact Survey.places_andThen_left List.mem_cons_self
  · rw [survey_plain fun ms hm => hv ⟨ms, hm⟩]
    exact ⟨_, List.mem_cons_self, rfl⟩

/-- A survey that is not halted has a place for every subschema of every node that it finds. -/
lemma exists_place_of_subschema (p : Position) (value : Json) (h : (survey p value).halt? = none) :
    ∀ n ∈ (survey p value).nodes, ∀ c ∈ Members.subschemas n.members,
      ∃ x ∈ (survey p value).places, x.path = n.site.path ++ c.keys := by
  induction p, value using survey_induction with
  | plain p value hv =>
    intro n hn
    rw [survey_plain hv] at hn
    simp [Survey.nodes, Entry.node?] at hn
  | object p ms ih =>
    intro n hn c hc
    obtain ⟨x, hx, he⟩ := Survey.mem_nodes.1 hn
    cases hp : p.enter ms with
    | error cause => simp [survey_refused hp] at hx
    | ok entered =>
      obtain ⟨m, addresses⟩ := entered
      obtain ⟨uri, base, hnode, -⟩ := Position.enter_spec hp
      have hparts : (Survey.sequence (partSurveys m addresses ms)).halt? = none := by
        rw [survey_entered hp] at h
        exact (Survey.halt?_of_andThen h).2.1
      -- the survey of a part ends as well, and its places are places of the whole
      have hpart : ∀ c' ∈ Members.subschemas ms,
          (survey (.below m addresses c'.keys) c'.value).halt? = none ∧
            (survey (.below m addresses c'.keys) c'.value).places ⊆ (survey p (.obj ms)).places := by
        intro c' hc'
        obtain ⟨h1, h2⟩ := Survey.of_sequence_not_halted hparts _ (List.mem_map_of_mem hc')
        refine ⟨h1, fun y hy => ?_⟩
        rw [survey_entered hp, (Survey.halt?_of_andThen (survey_entered hp ▸ h)).2.2]
        exact List.mem_append_right _ (h2 hy)
      rcases mem_places_survey_entered hp hx with rfl | ⟨c', hc', hx, -⟩
      · obtain rfl : m = n := by simpa using he
        have hmembers : m.members = ms := by simp [hnode, SchemaNode.members]
        rw [hmembers] at hc
        obtain ⟨h1, h2⟩ := hpart c hc
        obtain ⟨y, hy, hpath⟩ := exists_place_of_not_halted h1
        exact ⟨y, h2 hy, hpath⟩
      · obtain ⟨h1, h2⟩ := hpart c' hc'
        obtain ⟨y, hy, hpath⟩ := ih c' hc' _ h1 n (Survey.mem_nodes.2 ⟨x, hx, he⟩) c hc
        exact ⟨y, h2 hy, hpath⟩

/-! ## How many places there are

No keyword is looked at twice, so the values of all subschemas together are not larger than the object. -/

namespace Json

lemma sizeElements_eq_sum (xs : List Json) : sizeElements xs = (xs.map size).sum := by
  induction xs with
  | nil => rfl
  | cons x xs ih => rw [sizeElements, ih, List.map_cons, List.sum_cons]

lemma sizeMembers_eq_sum (ms : Members) : sizeMembers ms = (ms.map (·.2.size)).sum := by
  induction ms with
  | nil => rfl
  | cons m ms ih => rw [sizeMembers, ih, List.map_cons, List.sum_cons]

lemma one_le_size (value : Json) : 1 ≤ value.size := by
  cases value <;> simp [size]

end Json

namespace Members

/-- The size of the value of a key, nothing if there is none. -/
def sizeAt (ms : Members) (key : String) : Nat :=
  (ms.get? key).elim 0 Json.size

lemma sizeAt_of_get? {ms : Members} {key : String} {value : Json} (h : ms.get? key = some value) :
    ms.sizeAt key = value.size := by
  rw [sizeAt, h]
  rfl

/-- The sizes of the values of some subschemas, taken together. -/
def totalSize (cs : List Subschema) : Nat :=
  (cs.map (·.value.size)).sum

@[simp] lemma totalSize_append (cs ds : List Subschema) : totalSize (cs ++ ds) = totalSize cs + totalSize ds := by
  simp [totalSize]

lemma sum_ite_eq_le (keys : List String) (hk : keys.Nodup) (key : String) (w : Nat) :
    (keys.map fun k => if k = key then w else 0).sum ≤ w := by
  induction keys with
  | nil => simp
  | cons k keys ih =>
    obtain ⟨hnot, hk⟩ := List.nodup_cons.1 hk
    rw [List.map_cons, List.sum_cons]
    by_cases h : k = key
    · have hzero : (keys.map fun k => if k = key then w else 0).sum = 0 := by
        refine List.sum_eq_zero fun x hx => ?_
        obtain ⟨k', hk', rfl⟩ := List.mem_map.1 hx
        rw [if_neg]
        rintro rfl
        exact hnot (h ▸ hk')
      rw [hzero, if_pos h]
      omega
    · have hrest := ih hk
      rw [if_neg h]
      omega

lemma sizeAt_cons_le (m : String × Json) (ms : Members) (key : String) :
    sizeAt (m :: ms) key ≤ (if key = m.1 then m.2.size else 0) + sizeAt ms key := by
  obtain ⟨k, v⟩ := m
  unfold sizeAt get?
  by_cases h : key = k
  · subst h
    rw [List.lookup_cons, beq_self_eq_true, if_pos rfl]
    exact Nat.le_add_right _ _
  · have hne : (key == k) = false := by simpa using h
    rw [List.lookup_cons, hne, if_neg h, Nat.zero_add]

/-- The values of different keys together are not larger than the object. -/
lemma sum_sizeAt_le (keys : List String) (hk : keys.Nodup) (ms : Members) :
    (keys.map (sizeAt ms)).sum ≤ Json.sizeMembers ms := by
  induction ms with
  | nil =>
    refine (List.sum_eq_zero fun x hx => ?_).le
    obtain ⟨key, -, rfl⟩ := List.mem_map.1 hx
    rfl
  | cons m ms ih =>
    calc (keys.map (sizeAt (m :: ms))).sum
        ≤ (keys.map fun key => (if key = m.1 then m.2.size else 0) + sizeAt ms key).sum :=
          List.sum_le_sum fun key _ => sizeAt_cons_le m ms key
      _ = (keys.map fun key => if key = m.1 then m.2.size else 0).sum + (keys.map (sizeAt ms)).sum :=
          List.sum_map_add
      _ ≤ m.2.size + Json.sizeMembers ms := Nat.add_le_add (sum_ite_eq_le keys hk m.1 _) ih
      _ = Json.sizeMembers (m :: ms) := by rw [Json.sizeMembers]

lemma totalSize_listed (keyword : String) (values : List Json) :
    totalSize (listed keyword values) = Json.sizeElements values := by
  rw [Json.sizeElements_eq_sum, totalSize, listed, List.mapIdx_eq_zipIdx_map, List.map_map]
  congr 1
  calc (values.zipIdx.map fun e => e.1.size)
      = (values.zipIdx.map Prod.fst).map Json.size := by rw [List.map_map]; rfl
    _ = values.map Json.size := by rw [List.zipIdx_map_fst]

lemma totalSize_keywords_le (keys : List String) (ms : Members) :
    totalSize (keys.filterMap fun k => (ms.get? k).map fun value => ⟨[k], value⟩) ≤
      (keys.map ms.sizeAt).sum := by
  induction keys with
  | nil => simp [totalSize]
  | cons k keys ih =>
    rw [List.map_cons, List.sum_cons]
    cases h : ms.get? k with
    | none =>
      rw [List.filterMap_cons_none (by rw [h]; rfl)]
      omega
    | some value =>
      rw [List.filterMap_cons_some (by rw [h]; rfl), sizeAt_of_get? h]
      simp only [totalSize, List.map_cons, List.sum_cons] at ih ⊢
      omega

lemma totalSize_flatMap_le {parts : String → List Subschema} {ms : Members}
    (h : ∀ k, totalSize (parts k) ≤ ms.sizeAt k) (keys : List String) :
    totalSize (keys.flatMap parts) ≤ (keys.map ms.sizeAt).sum := by
  induction keys with
  | nil => simp [totalSize]
  | cons k keys ih =>
    rw [List.flatMap_cons, totalSize_append, List.map_cons, List.sum_cons]
    exact Nat.add_le_add (h k) ih

lemma totalSize_named_le (ms : Members) (keyword : String) :
    totalSize (ms.named keyword) ≤ ms.sizeAt keyword := by
  unfold named
  split
  · next ns h =>
    rw [sizeAt_of_get? h, Json.size, Json.sizeMembers_eq_sum, totalSize, List.map_map]
    have hle : ((ns.filter (isSchemaShaped ·.2)).map (·.2.size)).sum ≤ (ns.map (·.2.size)).sum :=
      (List.filter_sublist.map _).sum_le_sum fun _ _ => Nat.zero_le _
    exact Nat.le_succ_of_le hle
  · simp [totalSize]

lemma totalSize_inLists_le (ms : Members) (keyword : String) :
    totalSize (ms.inLists keyword) ≤ ms.sizeAt keyword := by
  unfold inLists
  split
  · next values h =>
    rw [sizeAt_of_get? h, totalSize_listed, Json.size]
    omega
  · simp [totalSize]

lemma totalSize_propertySchemas_le (ms : Members) :
    totalSize ms.propertySchemas ≤ ms.sizeAt "properties" := by
  unfold propertySchemas
  split
  · next ps h =>
    rw [sizeAt_of_get? h, Json.size, Json.sizeMembers_eq_sum, totalSize, List.map_map]
    exact Nat.le_succ _
  · simp [totalSize]

lemma totalSize_itemSchemas_le (ms : Members) : totalSize ms.itemSchemas ≤ ms.sizeAt "items" := by
  unfold itemSchemas
  split
  · next values h =>
    rw [sizeAt_of_get? h, totalSize_listed, Json.size]
    omega
  · next value _ h =>
    rw [sizeAt_of_get? h]
    simp [totalSize]
  · simp [totalSize]

/-- The keywords under which subschemas are looked for. -/
def subschemaKeys : List String :=
  schemaKeywords ++ schemaMapKeywords ++ schemaListKeywords ++ ["properties", "items"]

lemma nodup_subschemaKeys : subschemaKeys.Nodup := by
  decide

lemma totalSize_subschemas_le (ms : Members) : totalSize ms.subschemas ≤ Json.sizeMembers ms := by
  have hkeys := totalSize_keywords_le schemaKeywords ms
  have hnamed := totalSize_flatMap_le ms.totalSize_named_le schemaMapKeywords
  have hlists := totalSize_flatMap_le ms.totalSize_inLists_le schemaListKeywords
  have hproperties := ms.totalSize_propertySchemas_le
  have hitems := ms.totalSize_itemSchemas_le
  have hall := sum_sizeAt_le subschemaKeys nodup_subschemaKeys ms
  simp only [subschemaKeys, List.map_append, List.sum_append, List.map_cons, List.map_nil, List.sum_cons,
    List.sum_nil] at hall
  simp only [subschemas, totalSize_append]
  omega

end Members

/-- A survey has at most one place for each value of the document. -/
theorem length_places_le_size (p : Position) (value : Json) :
    (survey p value).places.length ≤ value.size := by
  induction p, value using survey_induction with
  | plain p value h =>
    rw [survey_plain h]
    exact value.one_le_size
  | object p ms ih =>
    cases h : p.enter ms with
    | error cause => simp [survey_refused h]
    | ok entered =>
      obtain ⟨n, addresses⟩ := entered
      rw [survey_entered h]
      have hparts : ((partSurveys n addresses ms).map (·.places.length)).sum ≤
          Members.totalSize ms.subschemas := by
        rw [partSurveys, List.map_map, Members.totalSize]
        exact List.sum_le_sum fun c hc => ih c hc _
      have hfirst := Survey.length_places_andThen ⟨[⟨p.path, addresses, .node n⟩], none⟩
        (.sequence (partSurveys n addresses ms))
      have hrest := Survey.length_places_sequence (partSurveys n addresses ms)
      have htotal := Members.totalSize_subschemas_le ms
      rw [List.length_singleton] at hfirst
      rw [Json.size]
      omega

end SchemaAccessors
