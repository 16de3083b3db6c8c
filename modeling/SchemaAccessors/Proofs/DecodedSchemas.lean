import SchemaAccessors.Proofs.Decoding
import SchemaAccessors.Proofs.Refusals

/-!
# Schemas of documents as they were read

Where the schemas of a document are is said here once more, family of keywords by family of keywords:
`Decoded.Members.Subvalue` is a list of rules, and `Decoded.SchemaAt` follows them to any depth. A document is torn
where a key on the way to a schema has a surrogate on its own, since a survey cannot go there.
-/

namespace SchemaAccessors

/-! ## Schemas of a document -/

namespace Decoded

open SchemaAccessors.Members (schemaKeywords schemaMapKeywords schemaListKeywords)

/-- What an object holds as a schema, with the keywords and keys on the way: the value of a keyword that takes a
schema; an object or a boolean that a keyword gives a name to; a member of a list; a property, whatever it is; and
the items, either one schema or a list of them. -/
inductive Members.Subvalue (ms : Members) : List CodePoints → Decoded → Prop
  | single {keyword : String} {value : Decoded} (known : keyword ∈ schemaKeywords)
      (found : ms.get? keyword = some value) : Subvalue ms [.ofString keyword] value
  | named {keyword : String} {name : CodePoints} {entries : Members} {value : Decoded}
      (known : keyword ∈ schemaMapKeywords) (found : ms.get? keyword = some (.obj entries))
      (entry : (name, value) ∈ entries) (shaped : (∃ members, value = .obj members) ∨ ∃ b, value = .bool b) :
      Subvalue ms [.ofString keyword, name] value
  | listed {keyword : String} {values : List Decoded} {i : Nat} {value : Decoded} (known : keyword ∈ schemaListKeywords)
      (found : ms.get? keyword = some (.arr values)) (entry : values[i]? = some value) :
      Subvalue ms [.ofString keyword, .ofString (toString i)] value
  | property {name : CodePoints} {properties : Members} {value : Decoded}
      (found : ms.get? "properties" = some (.obj properties)) (entry : (name, value) ∈ properties) :
      Subvalue ms [.ofString "properties", name] value
  | item {value : Decoded} (found : ms.get? "items" = some value) (one : ∀ values, value ≠ .arr values) :
      Subvalue ms [.ofString "items"] value
  | itemAt {values : List Decoded} {i : Nat} {value : Decoded} (found : ms.get? "items" = some (.arr values))
      (entry : values[i]? = some value) : Subvalue ms [.ofString "items", .ofString (toString i)] value

/-- The schemas of a document, at any depth, with the way to each. -/
inductive SchemaAt : Decoded → List CodePoints → Decoded → Prop
  | here (document : Decoded) : SchemaAt document [] document
  | within {ms : Members} {keys path : List CodePoints} {held value : Decoded} (holds : ms.Subvalue keys held)
      (deeper : SchemaAt held path value) : SchemaAt (.obj ms) (keys ++ path) value

lemma mem_listed_iff {keyword : String} {values : List Decoded} {keys : List CodePoints} {value : Decoded} :
    ⟨keys, value⟩ ∈ listed keyword values ↔
      ∃ i : Nat, values[i]? = some value ∧ keys = [.ofString keyword, .ofString (toString i)] := by
  simp only [listed, List.mem_mapIdx, Subschema.mk.injEq, List.getElem?_eq_some_iff]
  constructor
  · rintro ⟨i, hi, rfl, rfl⟩
    exact ⟨i, ⟨hi, rfl⟩, rfl⟩
  · rintro ⟨i, ⟨hi, rfl⟩, rfl⟩
    exact ⟨i, hi, rfl, rfl⟩

lemma mem_keyed_iff {keyword : String} {entries : Members} {keys : List CodePoints} {value : Decoded} :
    ⟨keys, value⟩ ∈ keyed keyword entries ↔ ∃ name, (name, value) ∈ entries ∧ keys = [.ofString keyword, name] := by
  simp only [keyed, List.mem_map, Subschema.mk.injEq]
  constructor
  · rintro ⟨⟨name, held⟩, hentry, rfl, rfl⟩
    exact ⟨name, hentry, rfl⟩
  · rintro ⟨name, hentry, rfl⟩
    exact ⟨(name, value), hentry, rfl, rfl⟩

lemma isSchemaShaped_iff {value : Decoded} :
    isSchemaShaped value = true ↔ (∃ members, value = .obj members) ∨ ∃ b, value = .bool b := by
  cases value <;> simp [isSchemaShaped]

namespace Members

variable {ms : Members} {keyword : String} {keys : List CodePoints} {value : Decoded}

lemma mem_entries_iff {m : CodePoints × Decoded} :
    m ∈ ms.entries keyword ↔ ∃ entries, ms.get? keyword = some (.obj entries) ∧ m ∈ entries := by
  unfold entries
  split
  · next entries hfound => simp [hfound]
  · next hfound => exact iff_of_false List.not_mem_nil fun ⟨entries, h, _⟩ => hfound entries h

lemma getElem?_elements_iff {i : Nat} :
    (ms.elements keyword)[i]? = some value ↔
      ∃ values, ms.get? keyword = some (.arr values) ∧ values[i]? = some value := by
  unfold elements
  split
  · next values hfound => simp [hfound]
  · next hfound => exact iff_of_false nofun fun ⟨values, h, _⟩ => hfound values h

lemma mem_itemSchemas_iff :
    ⟨keys, value⟩ ∈ ms.itemSchemas ↔
      (ms.get? "items" = some value ∧ (∀ values, value ≠ .arr values) ∧ keys = [.ofString "items"]) ∨
        ∃ (values : List Decoded) (i : Nat), ms.get? "items" = some (.arr values) ∧ values[i]? = some value ∧
          keys = [.ofString "items", .ofString (toString i)] := by
  unfold itemSchemas
  split
  · next values hfound =>
    rw [mem_listed_iff, hfound]
    simp only [Option.some.injEq, Decoded.arr.injEq]
    constructor
    · rintro ⟨i, hentry, rfl⟩
      exact .inr ⟨values, i, rfl, hentry, rfl⟩
    · rintro (⟨rfl, hone, -⟩ | ⟨values, i, rfl, hentry, rfl⟩)
      · exact (hone values rfl).elim
      · exact ⟨i, hentry, rfl⟩
  · next held hone hfound =>
    rw [List.mem_singleton, Subschema.mk.injEq, hfound]
    simp only [Option.some.injEq]
    constructor
    · rintro ⟨rfl, rfl⟩
      exact .inl ⟨rfl, hone, rfl⟩
    · rintro (⟨rfl, -, rfl⟩ | ⟨values, i, rfl, -⟩)
      · exact ⟨rfl, rfl⟩
      · exact (hone values rfl).elim
  · next hfound => simp [hfound]

/-- What is surveyed below an object is what the rules list. -/
lemma mem_subschemas_iff : ⟨keys, value⟩ ∈ ms.subschemas ↔ ms.Subvalue keys value := by
  simp only [subschemas, List.mem_append, List.mem_filterMap, List.mem_flatMap, Option.map_eq_some_iff,
    Subschema.mk.injEq, mem_keyed_iff, mem_listed_iff, List.mem_filter, mem_entries_iff, getElem?_elements_iff,
    isSchemaShaped_iff, mem_itemSchemas_iff]
  constructor
  · rintro ((((⟨keyword, known, held, found, rfl, rfl⟩ |
      ⟨keyword, known, name, ⟨⟨entries, found, entry⟩, shaped⟩, rfl⟩) |
      ⟨keyword, known, i, ⟨values, found, entry⟩, rfl⟩) | ⟨name, ⟨properties, found, entry⟩, rfl⟩) |
      ⟨found, one, rfl⟩ | ⟨values, i, found, entry, rfl⟩)
    · exact .single known found
    · exact .named known found entry shaped
    · exact .listed known found entry
    · exact .property found entry
    · exact .item found one
    · exact .itemAt found entry
  · intro h
    cases h with
    | @single keyword value known found => exact .inl (.inl (.inl (.inl ⟨keyword, known, value, found, rfl, rfl⟩)))
    | named known found entry shaped => exact .inl (.inl (.inl (.inr ⟨_, known, _, ⟨⟨_, found, entry⟩, shaped⟩, rfl⟩)))
    | listed known found entry => exact .inl (.inl (.inr ⟨_, known, _, ⟨_, found, entry⟩, rfl⟩))
    | property found entry => exact .inl (.inr ⟨_, ⟨_, found, entry⟩, rfl⟩)
    | item found one => exact .inr (.inl ⟨found, one, rfl⟩)
    | itemAt found entry => exact .inr (.inr ⟨_, _, found, entry, rfl⟩)

end Members

end Decoded

/-! ## Keys that can be read -/

/-- A text has a surrogate on its own. -/
def CodePoints.Torn (t : CodePoints) : Prop :=
  ∃ offset, CodePoint.surrogate offset ∈ t

namespace Uri

lemma torn_of_readKey_eq_error {key : CodePoints} {fault : Unencodable} (h : readKey key = .error fault) :
    key.Torn := by
  unfold readKey at h
  split at h
  · cases h
  · next hnone => exact CodePoints.characters?_eq_none_iff.1 hnone

lemma not_torn_of_readKey_eq_ok {key : CodePoints} {text : String} (h : readKey key = .ok text) : ¬ key.Torn := by
  intro htorn
  unfold readKey at h
  rw [CodePoints.characters?_eq_none_iff.2 htorn] at h
  cases h

lemma exists_torn_of_mapM_eq_error {keys : List CodePoints} {fault : Unencodable}
    (h : keys.mapM readKey = .error fault) : ∃ key ∈ keys, key.Torn := by
  obtain ⟨key, hkey, hfault⟩ := exists_of_mapM_eq_error h
  exact ⟨key, hkey, torn_of_readKey_eq_error hfault⟩

lemma exists_mapM_readKey_iff {keys : List CodePoints} :
    (∃ texts, keys.mapM readKey = .ok texts) ↔ ∀ key ∈ keys, ¬ key.Torn := by
  constructor
  · rintro ⟨texts, h⟩ key hkey
    obtain ⟨text, -, htext⟩ := exists_of_forall₂ (forall₂_of_mapM_eq_ok h) key hkey
    exact not_torn_of_readKey_eq_ok htext
  · intro h
    cases hread : keys.mapM readKey with
    | error fault =>
      obtain ⟨key, hkey, htorn⟩ := exists_torn_of_mapM_eq_error hread
      exact (h key hkey htorn).elim
    | ok texts => exact ⟨texts, rfl⟩

end Uri

namespace Decoded

/-- A key on the way to a schema of a document has a surrogate on its own. -/
def Torn (document : Decoded) : Prop :=
  ∃ path value, document.SchemaAt path value ∧ ∃ key ∈ path, key.Torn

lemma torn_obj_iff {ms : Members} :
    (obj ms).Torn ↔ ∃ c ∈ ms.subschemas, (∃ key ∈ c.keys, key.Torn) ∨ c.value.Torn := by
  constructor
  · rintro ⟨path, value, hvalue, key, hkey, htorn⟩
    cases hvalue with
    | here => cases hkey
    | within holds deeper =>
      refine ⟨_, Members.mem_subschemas_iff.2 holds, ?_⟩
      rcases List.mem_append.1 hkey with hkey | hkey
      · exact .inl ⟨key, hkey, htorn⟩
      · exact .inr ⟨_, value, deeper, key, hkey, htorn⟩
  · rintro ⟨c, hc, ⟨key, hkey, htorn⟩ | ⟨path, value, hvalue, key, hkey, htorn⟩⟩
    · exact ⟨_, c.value, .within (Members.mem_subschemas_iff.1 hc) (.here _), key, List.mem_append_left _ hkey, htorn⟩
    · exact ⟨_, value, .within (Members.mem_subschemas_iff.1 hc) hvalue, key, List.mem_append_right _ hkey, htorn⟩

/-! ## The survey of a subschema -/

section Subschema

variable {c : Subschema} {n : SchemaNode} {addresses : List Address} {path : List String}

lemma Subschema.halt?_survey_eq_none_iff :
    (c.survey n addresses path).halt? = none ↔
      ∃ keys, c.keys.mapM Uri.readKey = .ok keys ∧ (c.value.survey (.below n addresses keys)).halt? = none := by
  unfold Subschema.survey
  cases c.keys.mapM Uri.readKey <;> simp

lemma Subschema.of_halt {halt : Halt} (h : (c.survey n addresses path).halt? = some halt) :
    (∃ fault, halt.cause = .unencodable fault ∧ ∃ key ∈ c.keys, key.Torn) ∨
      ∃ keys, (c.value.survey (.below n addresses keys)).halt? = some halt := by
  unfold Subschema.survey at h
  split at h
  · next fault hkeys =>
    obtain rfl := Option.some.inj h
    exact .inl ⟨fault, rfl, Uri.exists_torn_of_mapM_eq_error hkeys⟩
  · next keys _ => exact .inr ⟨keys, h⟩

lemma Subschema.mem_survey_of_mem {x : Place} (h : x ∈ (c.survey n addresses path).places) :
    ∃ keys, x ∈ (c.value.survey (.below n addresses keys)).places := by
  unfold Subschema.survey at h
  split at h
  · cases h
  · next keys _ => exact ⟨keys, h⟩

end Subschema

end Decoded

end SchemaAccessors
