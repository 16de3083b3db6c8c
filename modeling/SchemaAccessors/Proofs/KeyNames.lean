import SchemaAccessors.Proofs.Locations
import SchemaAccessors.Proofs.Pointers
import SchemaAccessors.Proofs.Spelling

/-!
# Types named after keys

The URI of a subschema ends in the key that leads to it, and the type for the subschema is named after what the end
of its URI stands for. The end is cut off behind the last slash, and no key brings a slash or a `#` of its own to where
it is cut, so what is read is the key that was written, whatever is in it. Only the part of it before a dot is made a
name. A name is one word with a capital in front, and is not changed by being made a name again.
-/

namespace SchemaAccessors

namespace Naming

/-- The part of a key before its first dot. -/
def beforeDot (key : String) : String :=
  String.ofList (key.toList.takeWhile (· ≠ '.'))

/-! ## The end of a URI -/

/-- Whatever a key is appended to, it stands behind the last slash. -/
lemma exists_toList_append (uri key : String) :
    ∃ before, (Uri.append uri key).toList = before ++ '/' :: Uri.encodeSegment key.toList := by
  dsimp only [Uri.append]
  generalize (if uri.toList.contains '#' then uri.toList else uri.toList ++ ['#']) = start
  rw [String.toList_ofList]
  by_cases hslash : start.getLast? = some '/'
  · obtain ⟨before, rfl⟩ := List.getLast?_eq_some_iff.1 hslash
    refine ⟨before, ?_⟩
    rw [if_pos hslash, List.append_assoc, List.singleton_append]
  · refine ⟨start, ?_⟩
    rw [if_neg hslash, List.append_assoc, List.singleton_append]

lemma hash_notMem_encodeSegment (key : List Char) : '#' ∉ Uri.encodeSegment key :=
  Uri.notMem_encodeSegment (by decide) (by decide) (by decide) key

/-- What the end of a URI stands for is the key that was appended last, up to its first dot. -/
lemma leaf_append (uri key : String) : leaf (Uri.append uri key) = beforeDot key := by
  obtain ⟨before, huri⟩ := exists_toList_append uri key
  have hslash : ∀ c ∈ (Uri.encodeSegment key.toList).reverse, decide (c ≠ '/') = true := by
    intro c hc
    refine decide_eq_true ?_
    rintro rfl
    exact Uri.slash_notMem_encodeSegment _ (List.mem_reverse.1 hc)
  have hlast : ((before ++ '/' :: Uri.encodeSegment key.toList).reverse.takeWhile (· ≠ '/')).reverse =
      Uri.encodeSegment key.toList := by
    rw [List.reverse_append, List.reverse_cons, List.append_assoc, List.takeWhile_append_of_pos hslash,
      List.singleton_append, List.takeWhile_cons_of_neg (by decide), List.append_nil, List.reverse_reverse]
  have hhash : (Uri.encodeSegment key.toList).dropWhile (· = '#') = Uri.encodeSegment key.toList := by
    refine List.dropWhile_eq_self_iff.2 fun hlength => ?_
    intro hfirst
    have hmem := List.getElem_mem hlength
    rw [of_decide_eq_true hfirst] at hmem
    exact hash_notMem_encodeSegment _ hmem
  dsimp only [leaf]
  rw [huri, hlast, hhash, Uri.decodeSegment_encodeSegment, beforeDot]

lemma leaf_foldl_append {keys : List String} {key : String} (uri : String) (hkey : keys.getLast? = some key) :
    leaf (keys.foldl Uri.append uri) = beforeDot key := by
  obtain ⟨before, rfl⟩ := List.getLast?_eq_some_iff.1 hkey
  rw [List.foldl_append, List.foldl_cons, List.foldl_nil, leaf_append]

/-! ## Names made names again -/

lemma toUpper_of_isUpper {c : Char} (h : c.isUpper = true) : c.toUpper = c :=
  alphanum_induction (P := fun c => c.isUpper = true → c.toUpper = c) (by decide) (isAlphanum_of_isUpper h) h

/-- A text of letters and digits is one word. -/
lemma wordsFrom_of_isAlphanum {text : List Char} (htext : ∀ c ∈ text, c.isAlphanum = true) {word : List Char}
    (hword : word ≠ []) : wordsFrom word text = [word.reverse ++ text] := by
  induction text generalizing word with
  | nil => rw [wordsFrom, if_neg (by simpa using hword), List.append_nil]
  | cons c text ih =>
    obtain ⟨hc, hrest⟩ := List.forall_mem_cons.1 htext
    rw [wordsFrom, if_pos hc, ih hrest (List.cons_ne_nil c word), List.reverse_cons, List.append_assoc,
      List.singleton_append]

/-- What is spelled like the name of a type is its own name. -/
lemma identifier_of_isTypeName {name : String} (h : isTypeName name = true) : identifier name = name := by
  obtain ⟨c, rest, hname, hc, hrest⟩ := isTypeName_iff.1 h
  have hwords : wordsFrom [] (c :: rest) = [c :: rest] := by
    rw [wordsFrom, if_pos (isAlphanum_of_isUpper hc), wordsFrom_of_isAlphanum hrest (List.cons_ne_nil c [])]
    rfl
  have hcamel : camelChars (c :: rest) = c :: rest := by
    rw [camelChars, hwords, List.flatMap_singleton, capitalize, toUpper_of_isUpper hc]
  have hdigit : c.isDigit = false := not_isDigit_of_isUpper hc
  rw [identifier, hname, identifierChars, hcamel]
  dsimp only
  rw [hdigit, if_neg Bool.false_ne_true, ← hname, String.ofList_toList]

/-- A URI stands for a key: what is cut off its end is the key up to its first dot, and its type is named after that. -/
structure NamedAfter (uri key : String) : Prop where
  leaf_eq : leaf uri = beforeDot key
  typeName_eq : typeName uri = identifier (beforeDot key)

lemma namedAfter_of_leaf {uri key : String} (h : leaf uri = beforeDot key) : NamedAfter uri key :=
  ⟨h, congrArg identifier h⟩

end Naming

open Naming (NamedAfter)

/-! ## Nodes and their keys

A node that has no identifier of its own has the URI that its keys were appended to. -/

/-- Keys lead to every subschema. -/
lemma Members.keys_ne_nil {ms : Members} {c : Subschema} (h : c ∈ ms.subschemas) : c.keys ≠ [] := by
  have listed_ne_nil {keyword : String} {values : List Json} (h : c ∈ listed keyword values) : c.keys ≠ [] := by
    obtain ⟨i, -, rfl⟩ := List.mem_mapIdx.1 h
    exact List.cons_ne_nil _ _
  simp only [subschemas, List.mem_append, List.mem_filterMap, List.mem_flatMap, Option.map_eq_some_iff] at h
  rcases h with (((⟨k, -, v, -, rfl⟩ | ⟨k, -, hk⟩) | ⟨k, -, hk⟩) | hp) | hi
  · exact List.cons_ne_nil _ _
  · unfold named at hk
    split at hk
    · obtain ⟨m, -, rfl⟩ := List.mem_map.1 hk
      exact List.cons_ne_nil _ _
    · cases hk
  · unfold inLists at hk
    split at hk
    · exact listed_ne_nil hk
    · cases hk
  · unfold propertySchemas at hp
    split at hp
    · obtain ⟨m, -, rfl⟩ := List.mem_map.1 hp
      exact List.cons_ne_nil _ _
    · cases hp
  · unfold itemSchemas at hi
    split at hi
    · exact listed_ne_nil hi
    · rw [List.mem_singleton.1 hi]
      exact List.cons_ne_nil _ _
    · cases hi

/-- The URI of a position stands for the last key on the way to it. -/
def Position.EndsInKey (p : Position) : Prop :=
  ∀ key ∈ p.path.getLast?, NamedAfter p.uri key

lemma Position.endsInKey_root (document : String) : (root document).EndsInKey :=
  fun _ hkey => nomatch hkey

lemma Position.endsInKey_below (n : SchemaNode) (addresses : List Address) {ms : Members} {c : Subschema}
    (hc : c ∈ ms.subschemas) : (below n addresses c.keys).EndsInKey := by
  intro key hkey
  have hlast : c.keys.getLast? = some key := by
    rw [← List.getLast?_append_of_ne_nil n.site.path (Members.keys_ne_nil hc)]
    exact hkey
  exact Naming.namedAfter_of_leaf (Naming.leaf_foldl_append n.uri hlast)

/-- A survey that begins where a key leads finds nodes that are named after the keys that lead to them. -/
lemma namedAfter_of_mem_nodes (p : Position) (value : Json) (hp : p.EndsInKey) :
    ∀ n ∈ (survey p value).nodes, (n.members.get? "$id").bind Json.str? = none →
      ∀ key ∈ n.site.path.getLast?, NamedAfter n.uri key := by
  induction p, value using survey_induction with
  | plain p value hplain =>
    intro n hn
    rw [survey_plain hplain] at hn
    cases hn
  | object p ms ih =>
    intro n hn hid key hkey
    obtain ⟨x, hx, he⟩ := Survey.mem_nodes.1 hn
    cases henter : p.enter ms with
    | error cause => simp [survey_refused henter] at hx
    | ok entered =>
      obtain ⟨m, addresses⟩ := entered
      rcases mem_places_survey_entered henter hx with rfl | ⟨c, hc, hx, -⟩
      · obtain rfl : m = n := Entry.node.inj he
        obtain ⟨uri, base, hnode, -⟩ := Position.enter_spec henter
        have hmembers : m.members = ms := by simp [hnode, SchemaNode.members]
        rw [hmembers] at hid
        obtain ⟨rfl, -⟩ := Position.enter_of_unidentified hid henter
        rw [Position.site_nodeWith] at hkey
        simpa [SchemaNode.uri] using hp key hkey
      · exact ih c hc _ (Position.endsInKey_below m addresses hc) n (Survey.mem_nodes.2 ⟨x, hx, he⟩) hid key hkey

namespace Naming

/-- A key that is appended to a URI is what the URI is named after, whatever the key and the URI hold, and a name that
is made of a name is that name. So every node that a survey finds is named after the last key on the way to it, unless
it has an identifier of its own. -/
theorem namedAfter_append :
    (∀ uri key : String, NamedAfter (Uri.append uri key) key) ∧
      (∀ text : String, identifier (identifier text) = identifier text) ∧
      ∀ (uri : String) (document : Json), ∀ n ∈ (survey (.root uri) document).nodes,
        (n.members.get? "$id").bind Json.str? = none → ∀ key ∈ n.site.path.getLast?, NamedAfter n.uri key := by
  refine ⟨fun uri key => namedAfter_of_leaf (leaf_append uri key), fun text => ?_, fun uri document => ?_⟩
  · exact identifier_of_isTypeName (isTypeName_identifier text)
  · exact namedAfter_of_mem_nodes _ document (Position.endsInKey_root uri)

/-- A document with a key that looks like an escape, and has a slash, a blank and a dot in it. -/
def escaped : Json :=
  .obj [("properties", .obj [("", .obj []), ("~2", .obj []), ("~1/a b.c", .obj [])]), ("items", .arr [.obj []])]

theorem namedAfter_append_of_escapes :
    ∃ n ∈ (survey (.root "s.json") escaped).nodes, n.site.path.getLast? = some "~1/a b.c" ∧
      (n.members.get? "$id").bind Json.str? = none ∧ n.uri = "s.json#/properties/~01~1a%20b.c" ∧
      NamedAfter n.uri "~1/a b.c" ∧ identifier (beforeDot "~1/a b.c") = "Item1AB" := by
  have hfound : (survey (.root "s.json") escaped).nodes[3]?.any (fun n =>
      n.site.path.getLast? == some "~1/a b.c" && ((n.members.get? "$id").bind Json.str?).isNone &&
        n.uri == "s.json#/properties/~01~1a%20b.c") = true := by decide +kernel
  obtain ⟨n, hn, hall⟩ := (Option.any_eq_true _ _).1 hfound
  simp only [Bool.and_eq_true, beq_iff_eq, Option.isNone_iff_eq_none] at hall
  obtain ⟨⟨hpath, hid⟩, huri⟩ := hall
  have hmem := List.mem_of_getElem? hn
  exact ⟨n, hmem, hpath, hid, huri, namedAfter_append.2.2 "s.json" escaped n hmem hid _ hpath, by decide⟩

end Naming

end SchemaAccessors
