import SchemaAccessors.Schema.Node

/-!
# Places of a document

A document is surveyed once: every subschema location becomes a place, with the addresses it can be found
under. The survey ends at the first location that cannot be a schema; what was found before it stays found.
-/

namespace SchemaAccessors

/-! ## Subschemas -/

/-- A subschema of an object: the keywords and keys that lead to it, and its value. -/
structure Subschema where
  keys : List String
  value : Json

namespace Members

/-- Keywords whose value is a subschema. -/
def schemaKeywords : List String :=
  ["additionalItems", "additionalProperties", "contains", "else", "if", "not", "propertyNames", "then",
    "unevaluatedItems", "unevaluatedProperties"]

/-- Keywords whose value gives names to subschemas. -/
def schemaMapKeywords : List String :=
  ["$defs", "definitions", "dependencies", "dependentSchemas", "patternProperties"]

/-- Keywords whose value is a list of subschemas. -/
def schemaListKeywords : List String :=
  ["allOf", "anyOf", "oneOf", "prefixItems"]

/-- Subschemas in a list, with their positions. -/
def listed (keyword : String) (values : List Json) : List Subschema :=
  values.mapIdx fun i value => ⟨[keyword, toString i], value⟩

/-- Whether a value has the shape of a schema: an object or a boolean. -/
def isSchemaShaped : Json → Bool
  | .obj _ | .bool _ => true
  | _ => false

/-- Subschemas under a keyword that gives names. A value without the shape of a schema is none. -/
def named (ms : Members) (keyword : String) : List Subschema :=
  match ms.get? keyword with
  | some (.obj named) => (named.filter (isSchemaShaped ·.2)).map fun m => ⟨[keyword, m.1], m.2⟩
  | _ => []

def inLists (ms : Members) (keyword : String) : List Subschema :=
  match ms.get? keyword with
  | some (.arr values) => listed keyword values
  | _ => []

/-- The properties, whatever their values are. -/
def propertySchemas (ms : Members) : List Subschema :=
  match ms.get? "properties" with
  | some (.obj properties) => properties.map fun (name, value) => ⟨["properties", name], value⟩
  | _ => []

/-- The items: one schema for all, or one for each position. -/
def itemSchemas (ms : Members) : List Subschema :=
  match ms.get? "items" with
  | some (.arr values) => listed "items" values
  | some value => [⟨["items"], value⟩]
  | none => []

/-- The subschemas of an object, in the order in which they are surveyed. -/
def subschemas (ms : Members) : List Subschema :=
  (schemaKeywords.filterMap fun k => (ms.get? k).map fun value => ⟨[k], value⟩)
    ++ schemaMapKeywords.flatMap ms.named
    ++ schemaListKeywords.flatMap ms.inLists
    ++ ms.propertySchemas
    ++ ms.itemSchemas

/-! Every subschema is smaller than the object. -/

theorem sizeOf_lt_of_get? {ms : Members} {key : String} {value : Json} (h : ms.get? key = some value) :
    sizeOf value < sizeOf ms := by
  have h1 := List.sizeOf_lt_of_mem (mem_of_get? h)
  have h2 : sizeOf (key, value) = 1 + sizeOf key + sizeOf value := rfl
  omega

theorem sizeOf_lt_of_mem_listed {keyword : String} {values : List Json} {c : Subschema}
    (h : c ∈ listed keyword values) : sizeOf c.value < sizeOf values := by
  obtain ⟨i, hi, rfl⟩ := List.mem_mapIdx.1 h
  exact List.sizeOf_lt_of_mem (List.getElem_mem hi)

theorem sizeOf_lt_of_mem_pairs {pairs : Members} {name : String} {value : Json} (h : (name, value) ∈ pairs) :
    sizeOf value < sizeOf pairs := by
  have h1 := List.sizeOf_lt_of_mem h
  have h2 : sizeOf (name, value) = 1 + sizeOf name + sizeOf value := rfl
  omega

theorem sizeOf_obj (ms : Members) : sizeOf (Json.obj ms) = 1 + sizeOf ms := by
  simp

theorem sizeOf_arr (xs : List Json) : sizeOf (Json.arr xs) = 1 + sizeOf xs := by
  simp

theorem sizeOf_lt_of_mem_subschemas {ms : Members} {c : Subschema} (h : c ∈ ms.subschemas) :
    sizeOf c.value < sizeOf ms := by
  simp only [subschemas, List.mem_append, List.mem_filterMap, List.mem_flatMap, Option.map_eq_some_iff] at h
  rcases h with (((⟨k, _, v, hv, rfl⟩ | ⟨k, _, hk⟩) | ⟨k, _, hk⟩) | hp) | hi
  · exact sizeOf_lt_of_get? hv
  · unfold named at hk
    split at hk
    · next ns hn =>
      obtain ⟨⟨name, value⟩, hm, rfl⟩ := List.mem_map.1 hk
      have h1 := sizeOf_lt_of_get? hn
      have h2 := sizeOf_lt_of_mem_pairs (List.mem_filter.1 hm).1
      rw [sizeOf_obj] at h1
      simp only
      omega
    · simp at hk
  · unfold inLists at hk
    split at hk
    · next vs hv =>
      have h1 := sizeOf_lt_of_get? hv
      have h2 := sizeOf_lt_of_mem_listed hk
      rw [sizeOf_arr] at h1
      omega
    · simp at hk
  · unfold propertySchemas at hp
    split at hp
    · next ps hps =>
      obtain ⟨⟨name, value⟩, hm, rfl⟩ := List.mem_map.1 hp
      have h1 := sizeOf_lt_of_get? hps
      have h2 := sizeOf_lt_of_mem_pairs hm
      rw [sizeOf_obj] at h1
      simp only
      omega
    · simp at hp
  · unfold itemSchemas at hi
    split at hi
    · next vs hv =>
      have h1 := sizeOf_lt_of_get? hv
      have h2 := sizeOf_lt_of_mem_listed hi
      rw [sizeOf_arr] at h1
      omega
    · next v _ hv =>
      simp only [List.mem_singleton] at hi
      subst hi
      exact sizeOf_lt_of_get? hv
    · simp at hi

end Members

/-! ## The survey -/

/-- An address: a base URI, and the keys that lead from there. -/
abbrev Address := String × List String

/-- A subschema location: the keys on the way from the root, its addresses, and what it holds. -/
structure Place where
  path : List String
  addresses : List Address
  entry : Entry

/-- Where a survey ended early, and why. -/
structure Halt where
  path : List String
  cause : Failure

/-- The places found in a part of a document, and the end if it came early. -/
structure Survey where
  places : List Place
  halt? : Option Halt

namespace Survey

def nothing : Survey := ⟨[], none⟩

/-- One survey after the other; nothing comes after a halt. -/
def andThen (s t : Survey) : Survey :=
  if s.halt?.isSome then s else ⟨s.places ++ t.places, t.halt?⟩

end Survey

/-- Where the survey stands: what a location inherits from what it is written in. -/
structure Position where
  document : String
  path : List String
  parent? : Option SchemaNode
  uri : String
  base : String
  addresses : List Address

namespace Position

/-- The position of the root of a document. -/
def root (document : String) : Position :=
  ⟨document, [], none, document, document, [(document, [])]⟩

/-- The position of a subschema of a node with some addresses. -/
def below (n : SchemaNode) (addresses : List Address) (keys : List String) : Position :=
  { document := n.site.document
    path := n.site.path ++ keys
    parent? := some n
    uri := keys.foldl Uri.append n.uri
    base := n.base
    addresses := addresses.map fun (base, pointer) => (base, pointer ++ keys) }

/-- Refuses a value for a cause that shows it, or because it cannot be shown. -/
def refuse (cause : Failure) (value : Json) : Except Failure Unit :=
  .error (if value.showable then cause else .overlong .written)

/-- Refuses what is not the name of a primitive type. -/
def checkKind (uri : String) (name : Json) : Except Failure Unit :=
  if (name.str?.bind Kind.ofName?).isSome then .ok () else refuse (.unknownType uri name) name

/-- Refuses a `type` that is neither missing, null, the name of a primitive type nor a list of such names. -/
def checkKinds (uri : String) (ms : Members) : Except Failure Unit :=
  match ms.get? "type" with
  | none | some .null => .ok ()
  | some (.str name) => checkKind uri (.str name)
  | some (.arr names) => names.forM (checkKind uri)
  | some value => refuse (.invalidType uri value) value

/-- The node and the addresses of an object at a position. An `$id` is relative to the base; where it leads
to another document, that is the new base and an address of its own. -/
def enter (p : Position) (ms : Members) : Except Failure (SchemaNode × List Address) := do
  checkKinds p.uri ms
  let (uri, base, addresses) ← match ms.get? "$id" with
    | some (.str id) => do
      let uri ← (Uri.join p.base id).mapError .badUri
      let (base, _) ← (Uri.defragment uri).mapError .badUri
      if base ≠ "" ∧ base ≠ p.base then pure (uri, base, p.addresses ++ [(base, [])])
      else pure (uri, p.base, p.addresses)
    | _ => pure (p.uri, p.base, p.addresses)
  let site : Site := ⟨p.document, p.path, uri, base, ms⟩
  let node : SchemaNode := match p.parent? with
    | some parent => .inside parent site
    | none => .root site
  return (node, addresses)

end Position

/-- The places of a value at a position, the place of an object before the places of its subschemas. -/
def survey (p : Position) : Json → Survey
  | .obj ms =>
    match p.enter ms with
    | .error cause => ⟨[], some ⟨p.path, cause⟩⟩
    | .ok (node, addresses) =>
      let parts := (Members.subschemas ms).attach.map fun ⟨c, _⟩ =>
        survey (.below node addresses c.keys) c.value
      Survey.andThen ⟨[⟨p.path, addresses, .node node⟩], none⟩ (parts.foldr Survey.andThen .nothing)
  | value => ⟨[⟨p.path, p.addresses, .plain value⟩], none⟩
termination_by value => sizeOf value
decreasing_by
  have := Members.sizeOf_lt_of_mem_subschemas ‹_›
  rw [Members.sizeOf_obj]
  omega

end SchemaAccessors
