import SchemaAccessors.Proofs.Locations
import SchemaAccessors.Proofs.Reading

/-!
# Documents as they were read

A document that was read is surveyed by the same recursion as any other. What is different is that a part of an object
may be lost to a key that no URI can have. Where a document has no surrogates, nothing is lost, and it is surveyed and
loaded as the value that it stands for (`Decoded.survey_ofJson`, `Store.loadDecoded_ofJson`).
-/

namespace SchemaAccessors

namespace Decoded

/-! ## The survey as a recursion -/

/-- The survey of a subschema of a node, which ends at the node where a key on the way has a surrogate. -/
def Subschema.survey (n : SchemaNode) (addresses : List Address) (path : List String) (c : Subschema) : Survey :=
  match c.keys.mapM Uri.readKey with
  | .error fault => ⟨[], some ⟨path, .unencodable fault⟩⟩
  | .ok keys => c.value.survey (.below n addresses keys)

lemma survey_plain {p : Position} {value : Decoded} (h : ∀ ms, value ≠ .obj ms) :
    value.survey p = ⟨[⟨p.path, p.addresses, .plain value.json⟩], none⟩ := by
  rw [survey]
  cases value <;> simp_all

lemma survey_refused {p : Position} {ms : Members} {cause : Failure} (h : p.enter ms.json = .error cause) :
    (obj ms).survey p = ⟨[], some ⟨p.path, cause⟩⟩ := by
  rw [survey, h]

lemma survey_entered {p : Position} {ms : Members} {n : SchemaNode} {addresses : List Address}
    (h : p.enter ms.json = .ok (n, addresses)) :
    (obj ms).survey p = Survey.andThen ⟨[⟨p.path, addresses, .node n⟩], none⟩
      (.sequence (ms.subschemas.map (Subschema.survey n addresses p.path))) := by
  rw [survey, h]
  simp only [Survey.sequence]
  congr 2
  rw [List.map_attach_eq_pmap]
  exact List.pmap_eq_map (f := Subschema.survey n addresses p.path) _

/-- A survey of an object that comes to its end begins with the node of the object. -/
lemma exists_node_of_not_halted {p : Position} {ms : Members} (h : ((obj ms).survey p).halt? = none) :
    ∃ n addresses rest, ((obj ms).survey p).places = ⟨p.path, addresses, .node n⟩ :: rest ∧ n.members = ms.json := by
  cases henter : p.enter ms.json with
  | error cause => simp [survey_refused henter] at h
  | ok entered =>
    obtain ⟨n, addresses⟩ := entered
    exact ⟨n, addresses, _, by rw [survey_entered henter]; rfl, Position.members_of_enter henter⟩

/-- Induction along the survey: a value that is no object, or an object with its subschemas at any position. -/
lemma survey_induction {motive : Position → Decoded → Prop}
    (plain : ∀ p value, (∀ ms, value ≠ .obj ms) → motive p value)
    (object : ∀ p (ms : Members), (∀ c ∈ ms.subschemas, ∀ q, motive q c.value) → motive p (.obj ms))
    (p : Position) (value : Decoded) : motive p value := by
  induction hk : sizeOf value using Nat.strongRecOn generalizing p value with
  | ind k ih =>
    by_cases h : ∃ ms, value = .obj ms
    · obtain ⟨ms, rfl⟩ := h
      refine object p ms fun c hc q => ih _ ?_ q c.value rfl
      have hsmaller := Members.sizeOf_lt_of_mem_subschemas hc
      have hsize : sizeOf (obj ms) = 1 + sizeOf ms := by simp
      omega
    · exact plain p value fun ms hm => h ⟨ms, hm⟩

/-! ## Values without surrogates -/

section OfJson

mutual

/-- Where no object has a key twice, a value is the one that was read. -/
theorem json_ofJson : (value : Json) → value.keysApart = true → (ofJson value).json = value
  | .null, _ | .bool _, _ | .int _, _ | .float _, _ => rfl
  | .str s, _ => congrArg Json.str (CodePoints.replaced_ofString s)
  | .arr xs, h => congrArg Json.arr (jsonElements_ofElements xs (Json.keysApart_arr.1 h))
  | .obj ms, h => by
    obtain ⟨hkeys, hvalues⟩ := Json.keysApart_obj.1 h
    rw [ofJson, json, jsonEntries_ofMembers ms hvalues, Table.firsts_eq_self hkeys]

theorem jsonElements_ofElements : (xs : List Json) → (∀ x ∈ xs, x.keysApart = true) →
    jsonElements (ofElements xs) = xs
  | [], _ => rfl
  | x :: xs, h => by
    obtain ⟨hx, hxs⟩ := List.forall_mem_cons.1 h
    rw [ofElements, jsonElements, json_ofJson x hx, jsonElements_ofElements xs hxs]

theorem jsonEntries_ofMembers : (ms : SchemaAccessors.Members) → (∀ m ∈ ms, m.2.keysApart = true) →
    jsonEntries (ofMembers ms) = ms
  | [], _ => rfl
  | (key, x) :: ms, h => by
    obtain ⟨hx, hms⟩ := List.forall_mem_cons.1 h
    rw [ofMembers, jsonEntries, CodePoints.replaced_ofString, json_ofJson x hx, jsonEntries_ofMembers ms hms]

end

/-- A subschema without surrogates. -/
def Subschema.ofJson (c : SchemaAccessors.Subschema) : Subschema :=
  ⟨c.keys.map .ofString, Decoded.ofJson c.value⟩

variable {ms : SchemaAccessors.Members}

lemma json_ofMembers (h : (Json.obj ms).keysApart = true) : Members.json (ofMembers ms) = ms := by
  obtain ⟨hkeys, hvalues⟩ := Json.keysApart_obj.1 h
  rw [Members.json, jsonEntries_ofMembers ms hvalues, Table.firsts_eq_self hkeys]

lemma get?_ofMembers (ms : SchemaAccessors.Members) (key : String) :
    Members.get? (ofMembers ms) key = (ms.get? key).map ofJson := by
  unfold Members.get? SchemaAccessors.Members.get?
  induction ms with
  | nil => rfl
  | cons m ms ih =>
    rw [ofMembers, List.lookup_cons, List.lookup_cons, ih]
    by_cases hkey : key = m.1
    · simp [hkey]
    · have hread : CodePoints.ofString key ≠ .ofString m.1 := fun h => hkey (CodePoints.ofString_injective h)
      rw [beq_eq_false_iff_ne.2 hkey, beq_eq_false_iff_ne.2 hread]

@[simp] lemma isSchemaShaped_ofJson (value : Json) :
    isSchemaShaped (ofJson value) = SchemaAccessors.Members.isSchemaShaped value := by
  cases value <;> rfl

lemma listed_ofElements (keyword : String) (values : List Json) :
    listed keyword (ofElements values) = (SchemaAccessors.Members.listed keyword values).map .ofJson := by
  rw [ofElements_eq_map, listed, SchemaAccessors.Members.listed]
  apply List.ext_getElem?
  intro i
  rw [List.getElem?_mapIdx, List.getElem?_map, List.getElem?_map, List.getElem?_mapIdx, Option.map_map,
    Option.map_map]
  rfl

lemma keyed_ofMembers (keyword : String) (entries : SchemaAccessors.Members) :
    keyed keyword (ofMembers entries) = (entries.map fun m => ⟨[keyword, m.1], m.2⟩).map Subschema.ofJson := by
  rw [ofMembers_eq_map, keyed, List.map_map, List.map_map]
  rfl

lemma named_ofMembers (ms : SchemaAccessors.Members) (keyword : String) :
    keyed keyword ((Members.entries (ofMembers ms) keyword).filter (·.2.isSchemaShaped)) =
      (ms.named keyword).map .ofJson := by
  have hshaped : ((·.2.isSchemaShaped) ∘ fun m : String × Json => (CodePoints.ofString m.1, ofJson m.2)) =
      fun m => SchemaAccessors.Members.isSchemaShaped m.2 := by
    funext m
    exact isSchemaShaped_ofJson m.2
  unfold Members.entries SchemaAccessors.Members.named
  rw [get?_ofMembers]
  cases ms.get? keyword with
  | none => rfl
  | some value =>
    cases value with
    | obj entries =>
      rw [← keyed_ofMembers, ofMembers_eq_map, Option.map_some, ofJson]
      dsimp only
      rw [ofMembers_eq_map, List.filter_map, hshaped]
    | _ => rfl

lemma inLists_ofMembers (ms : SchemaAccessors.Members) (keyword : String) :
    listed keyword (Members.elements (ofMembers ms) keyword) = (ms.inLists keyword).map .ofJson := by
  unfold Members.elements SchemaAccessors.Members.inLists
  rw [get?_ofMembers]
  cases ms.get? keyword with
  | none => rfl
  | some value =>
    cases value with
    | arr values => exact listed_ofElements keyword values
    | _ => rfl

lemma propertySchemas_ofMembers (ms : SchemaAccessors.Members) :
    keyed "properties" (Members.entries (ofMembers ms) "properties") = ms.propertySchemas.map .ofJson := by
  unfold Members.entries SchemaAccessors.Members.propertySchemas
  rw [get?_ofMembers]
  cases ms.get? "properties" with
  | none => rfl
  | some value =>
    cases value with
    | obj entries => exact keyed_ofMembers "properties" entries
    | _ => rfl

lemma itemSchemas_ofMembers (ms : SchemaAccessors.Members) :
    Members.itemSchemas (ofMembers ms) = ms.itemSchemas.map .ofJson := by
  unfold Members.itemSchemas SchemaAccessors.Members.itemSchemas
  rw [get?_ofMembers]
  cases ms.get? "items" with
  | none => rfl
  | some value =>
    cases value with
    | arr values => exact listed_ofElements "items" values
    | _ => rfl

lemma subschemas_ofMembers (ms : SchemaAccessors.Members) :
    Members.subschemas (ofMembers ms) = ms.subschemas.map .ofJson := by
  have hsingle : (fun k => (Members.get? (ofMembers ms) k).map fun value => (⟨[.ofString k], value⟩ : Subschema)) =
      fun k => ((ms.get? k).map fun value => ⟨[k], value⟩).map Subschema.ofJson := by
    funext k
    rw [get?_ofMembers, Option.map_map, Option.map_map]
    rfl
  simp only [Members.subschemas, SchemaAccessors.Members.subschemas, named_ofMembers, inLists_ofMembers,
    propertySchemas_ofMembers, itemSchemas_ofMembers, hsingle, List.map_append, List.map_filterMap, List.map_flatMap]

lemma mapM_readKey_ofString (keys : List String) : (keys.map CodePoints.ofString).mapM Uri.readKey = .ok keys := by
  induction keys with
  | nil => rfl
  | cons key keys ih =>
    have hkey : Uri.readKey (.ofString key) = .ok key := by simp [Uri.readKey]
    rw [List.map_cons, List.mapM_cons, hkey, ih]
    rfl

/-- A document without surrogates is surveyed as the value that it stands for. -/
theorem survey_ofJson (p : Position) (value : Json) (h : value.keysApart = true) :
    (ofJson value).survey p = SchemaAccessors.survey p value := by
  induction p, value using SchemaAccessors.survey_induction with
  | plain p value hplain =>
    have hread : ∀ ms, ofJson value ≠ obj ms := by
      cases value with
      | obj ms => exact (hplain ms rfl).elim
      | _ => nofun
    rw [survey_plain hread, SchemaAccessors.survey_plain hplain, json_ofJson value h]
  | object p ms ih =>
    have hmembers := json_ofMembers h
    rw [ofJson]
    cases henter : p.enter ms with
    | error cause => rw [survey_refused (hmembers.symm ▸ henter), SchemaAccessors.survey_refused henter]
    | ok entered =>
      obtain ⟨n, addresses⟩ := entered
      rw [survey_entered (hmembers.symm ▸ henter), SchemaAccessors.survey_entered henter, subschemas_ofMembers,
        partSurveys, List.map_map]
      congr 2
      refine List.map_congr_left fun c hc => ?_
      rw [Function.comp_apply, Subschema.survey, Subschema.ofJson, mapM_readKey_ofString]
      exact ih c hc _ (SchemaAccessors.Members.keysApart_of_mem_subschemas h hc)

end OfJson

end Decoded

/-! ## Loading -/

lemma Decoded.exists_obj_of_json {document : Decoded} {ms : SchemaAccessors.Members} (h : document.json = .obj ms) :
    ∃ members, document = .obj members := by
  cases document with
  | obj members => exact ⟨members, rfl⟩
  | _ => cases h

namespace Store

lemma loading_loadDecoded {source uri fragment : String} (hsplit : Uri.defragment source = .ok (uri, fragment))
    (document : Decoded) (s : Store) :
    Loading (document.survey (.root uri)) s uri document.json (outcome (loadDecoded document source) s) := by
  refine loading_loadWith (fun uri => document.survey (.root uri)) hsplit (fun ms hms hhalt => ?_) s
  obtain ⟨members, rfl⟩ := Decoded.exists_obj_of_json hms
  obtain ⟨n, addresses, rest, hplaces, -⟩ := Decoded.exists_node_of_not_halted hhalt
  exact ⟨_, rest, hplaces⟩

/-- A document without surrogates is loaded as the value that it stands for. -/
theorem loadDecoded_ofJson (document : Json) (uri : String) (h : document.keysApart = true) :
    loadDecoded (.ofJson document) uri = load document uri := by
  unfold loadDecoded load
  simp only [Decoded.json_ofJson document h, Decoded.survey_ofJson _ document h]

end Store

end SchemaAccessors
