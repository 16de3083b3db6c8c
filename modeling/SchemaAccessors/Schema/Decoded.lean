import SchemaAccessors.Schema.Document

/-!
# Places of a document as it was read

A document that was read is surveyed like any other, in the same order, but a key with a surrogate cannot be part
of the URI of a subschema. The survey ends there.
-/

namespace SchemaAccessors.Decoded

/-! ## Subschemas -/

/-- A subschema of an object: the keywords and keys that lead to it, and its value. -/
structure Subschema where
  keys : List CodePoints
  value : Decoded

/-- Whether a value has the shape of a schema: an object or a boolean. -/
def isSchemaShaped : Decoded → Bool
  | .obj _ | .bool _ => true
  | _ => false

/-- Subschemas in a list, with their positions. -/
def listed (keyword : String) (values : List Decoded) : List Subschema :=
  values.mapIdx fun i value => ⟨[.ofString keyword, .ofString (toString i)], value⟩

/-- Subschemas under the keys of an object. -/
def keyed (keyword : String) (entries : Members) : List Subschema :=
  entries.map fun m => ⟨[.ofString keyword, m.1], m.2⟩

namespace Members

/-- The items: one schema for all, or one for each position. -/
def itemSchemas (ms : Members) : List Subschema :=
  match ms.get? "items" with
  | some (.arr values) => listed "items" values
  | some value => [⟨[.ofString "items"], value⟩]
  | none => []

/-- The subschemas of an object, in the order in which they are surveyed. -/
def subschemas (ms : Members) : List Subschema :=
  (SchemaAccessors.Members.schemaKeywords.filterMap fun k => (ms.get? k).map fun value => ⟨[.ofString k], value⟩)
    ++ (SchemaAccessors.Members.schemaMapKeywords.flatMap fun k => keyed k ((ms.entries k).filter (·.2.isSchemaShaped)))
    ++ (SchemaAccessors.Members.schemaListKeywords.flatMap fun k => listed k (ms.elements k))
    ++ keyed "properties" (ms.entries "properties")
    ++ ms.itemSchemas

/-! Every subschema is smaller than the object. -/

theorem sizeOf_lt_of_get? {ms : Members} {key : String} {value : Decoded} (h : ms.get? key = some value) :
    sizeOf value < sizeOf ms := by
  obtain ⟨before, after, rfl, -⟩ := List.lookup_eq_some_iff.1 h
  have hmem : (CodePoints.ofString key, value) ∈ before ++ (CodePoints.ofString key, value) :: after := by simp
  have hpair := List.sizeOf_lt_of_mem hmem
  have hvalue : sizeOf (CodePoints.ofString key, value) = 1 + sizeOf (CodePoints.ofString key) + sizeOf value := rfl
  omega

theorem sizeOf_lt_of_mem_entries {ms : Members} {keyword : String} {m : CodePoints × Decoded}
    (h : m ∈ ms.entries keyword) : sizeOf m.2 < sizeOf ms := by
  unfold entries at h
  split at h
  · next named hnamed =>
    have hobject := sizeOf_lt_of_get? hnamed
    have hmember := List.sizeOf_lt_of_mem h
    have hpair : sizeOf m = 1 + sizeOf m.1 + sizeOf m.2 := rfl
    have hsize : sizeOf (Decoded.obj named) = 1 + sizeOf named := by simp
    omega
  · cases h

theorem sizeOf_lt_of_mem_elements {ms : Members} {keyword : String} {value : Decoded}
    (h : value ∈ ms.elements keyword) : sizeOf value < sizeOf ms := by
  unfold elements at h
  split at h
  · next values hvalues =>
    have harray := sizeOf_lt_of_get? hvalues
    have hmember := List.sizeOf_lt_of_mem h
    have hsize : sizeOf (Decoded.arr values) = 1 + sizeOf values := by simp
    omega
  · cases h

end Members

theorem mem_listed {keyword : String} {values : List Decoded} {c : Subschema} (h : c ∈ listed keyword values) :
    c.value ∈ values := by
  obtain ⟨i, hi, rfl⟩ := List.mem_mapIdx.1 h
  exact List.getElem_mem hi

theorem Members.sizeOf_lt_of_mem_subschemas {ms : Members} {c : Subschema} (h : c ∈ ms.subschemas) :
    sizeOf c.value < sizeOf ms := by
  simp only [subschemas, List.mem_append, List.mem_filterMap, List.mem_flatMap, Option.map_eq_some_iff, keyed,
    List.mem_map] at h
  rcases h with (((⟨k, -, value, hvalue, rfl⟩ | ⟨k, -, m, hm, rfl⟩) | ⟨k, -, hc⟩) | ⟨m, hm, rfl⟩) | hc
  · exact sizeOf_lt_of_get? hvalue
  · exact sizeOf_lt_of_mem_entries (List.mem_filter.1 hm).1
  · exact sizeOf_lt_of_mem_elements (mem_listed hc)
  · exact sizeOf_lt_of_mem_entries hm
  · unfold itemSchemas at hc
    split at hc
    · next values hvalues =>
      have hitem : c.value ∈ ms.elements "items" := by
        rw [elements, hvalues]
        exact mem_listed hc
      exact sizeOf_lt_of_mem_elements hitem
    · next value _ hvalue =>
      rw [List.mem_singleton.1 hc]
      exact sizeOf_lt_of_get? hvalue
    · cases hc

/-! ## The survey -/

/-- The places of a value at a position, the place of an object before the places of its subschemas. -/
def survey (p : Position) : Decoded → Survey
  | .obj ms =>
    match p.enter (Members.json ms) with
    | .error cause => ⟨[], some ⟨p.path, cause⟩⟩
    | .ok (node, addresses) =>
      let parts := (Members.subschemas ms).attach.map fun ⟨c, _⟩ =>
        match c.keys.mapM Uri.readKey with
        | .error fault => ⟨[], some ⟨p.path, .unencodable fault⟩⟩
        | .ok keys => survey (.below node addresses keys) c.value
      Survey.andThen ⟨[⟨p.path, addresses, .node node⟩], none⟩ (parts.foldr Survey.andThen .nothing)
  | value => ⟨[⟨p.path, p.addresses, .plain value.json⟩], none⟩
termination_by value => sizeOf value
decreasing_by
  have hsmaller := Members.sizeOf_lt_of_mem_subschemas ‹_›
  have hsize : sizeOf (Decoded.obj ms) = 1 + sizeOf ms := by simp
  omega

end SchemaAccessors.Decoded
