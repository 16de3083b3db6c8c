import SchemaAccessors.Proofs.Copying
import SchemaAccessors.Proofs.References
import SchemaAccessors.Proofs.Variations

/-!
# Names that a language admits

The names of types and methods come from keys, identifiers and URIs, which may hold any text. What is made of a text
is spelled like the name of a type, and so is every variation of it; with a stem before it, it is spelled like the
name of a method. No word with which a language begins a phrase of its own is spelled like either, but for three
that are reserved. The fields of a class are named after the raw kinds that get types, and not after the others,
two of which are named like words of Java.
-/

namespace SchemaAccessors

/-! ## Identifiers and words -/

namespace Naming

/-- Whether a name is an identifier in ASCII: a letter or an underscore, then letters, digits and underscores. -/
def isIdentifier (name : String) : Bool :=
  match name.toList with
  | c :: rest => (c.isAlpha || c = '_') && rest.all fun d => d.isAlphanum || d = '_'
  | [] => false

lemma isIdentifier_of_alphanum {name : String} {c : Char} {rest : List Char} (hname : name.toList = c :: rest)
    (hc : c.isAlpha = true) (hall : ∀ d ∈ name.toList, d.isAlphanum = true) : isIdentifier name = true := by
  unfold isIdentifier
  rw [hname] at hall ⊢
  rw [Bool.and_eq_true, Bool.or_eq_true, List.all_eq_true]
  exact ⟨.inl hc, fun d hd => by rw [hall d (List.mem_cons_of_mem c hd), Bool.true_or]⟩

lemma isIdentifier_of_isTypeName {name : String} (h : isTypeName name = true) : isIdentifier name = true := by
  obtain ⟨c, rest, hname, hc, -⟩ := isTypeName_iff.1 h
  exact isIdentifier_of_alphanum hname (Bool.or_eq_true_iff.2 (.inl hc)) (all_isAlphanum_of_isTypeName h)

/-- The name of a method begins with a small letter. -/
lemma IsMethodName.exists_isLower {name : String} (h : IsMethodName name) :
    ∃ c rest, name.toList = c :: rest ∧ c.isLower = true := by
  rcases h with rfl | ⟨stem, hstem, suffix, -, rfl⟩
  · exact ⟨'s', ['i', 'z', 'e'], by decide, by decide⟩
  · have hstems : ∀ stem ∈ methodStems, stem.toList.head?.any Char.isLower = true := by decide
    obtain ⟨c, hc, hlower⟩ := (Option.any_eq_true _ _).1 (hstems stem hstem)
    obtain ⟨rest, hrest⟩ := List.head?_eq_some_iff.1 hc
    exact ⟨c, rest ++ suffix.toList, by rw [String.toList_append, hrest, List.cons_append], hlower⟩

/-- The name of a method is `size`, or has a capital. -/
lemma IsMethodName.exists_isUpper {name : String} (h : IsMethodName name) :
    name = "size" ∨ ∃ c ∈ name.toList, c.isUpper = true := by
  rcases h with rfl | ⟨stem, -, suffix, hsuffix, rfl⟩
  · exact .inl rfl
  · obtain ⟨c, rest, hname, hc, -⟩ := isTypeName_iff.1 hsuffix
    refine .inr ⟨c, ?_, hc⟩
    rw [String.toList_append, hname]
    exact List.mem_append_right _ List.mem_cons_self

lemma isIdentifier_of_isMethodName {name : String} (h : IsMethodName name) : isIdentifier name = true := by
  obtain ⟨c, rest, hname, hc⟩ := h.exists_isLower
  exact isIdentifier_of_alphanum hname (Bool.or_eq_true_iff.2 (.inr hc)) h.isAlphanum

end Naming

namespace Render

/-- Words that are names in some places only. -/
def Python.softKeywords : List String := ["_", "case", "match", "type"]

/-- Words that are no names, or that are none in some places. -/
def Java.keywords : List String :=
  ["_", "abstract", "assert", "boolean", "break", "byte", "case", "catch", "char", "class", "const", "continue",
    "default", "do", "double", "else", "enum", "exports", "extends", "false", "final", "finally", "float", "for",
    "goto", "if", "implements", "import", "instanceof", "int", "interface", "long", "module", "native", "new",
    "null", "open", "opens", "package", "permits", "private", "protected", "provides", "public", "record",
    "requires", "return", "sealed", "short", "static", "strictfp", "super", "switch", "synchronized", "this",
    "throw", "throws", "to", "transient", "transitive", "true", "try", "uses", "var", "void", "volatile", "when",
    "while", "with", "yield"]

end Render

namespace Language

/-- The words that a language keeps for itself. -/
def keywords : Language → List String
  | python => Render.Python.keywords ++ Render.Python.softKeywords
  | java => Render.Java.keywords

/-- A word of a language that is spelled like the name of a type is reserved. -/
lemma reserved_of_keyword (l : Language) {word : String} (h : word ∈ l.keywords)
    (hspelled : Naming.isTypeName word = true) : word ∈ l.model.reservedTypes := by
  have hwords : ∀ word ∈ l.keywords, Naming.isTypeName word = true → word ∈ l.model.reservedTypes := by
    cases l <;> decide
  exact hwords word h hspelled

/-- No word of a language is spelled like the name of a method: one with a capital begins with it. -/
lemma notMem_keywords_of_isMethodName (l : Language) {name : String} (h : Naming.IsMethodName name) :
    name ∉ l.keywords := by
  intro hmem
  have hwords : ∀ word ∈ l.keywords, word ≠ "size" ∧
      (word.toList.all (fun c => !c.isUpper) ∨ word.toList.head?.any fun c => !c.isLower) := by
    cases l <;> decide +kernel
  obtain ⟨hsize, hsmall | hcapital⟩ := hwords name hmem
  · rcases h.exists_isUpper with hname | ⟨c, hc, hupper⟩
    · exact hsize hname
    · have hnot := List.all_eq_true.1 hsmall c hc
      rw [hupper] at hnot
      cases hnot
  · obtain ⟨c, rest, hname, hlower⟩ := h.exists_isLower
    rw [hname, List.head?_cons, Option.any_some, hlower] at hcapital
    cases hcapital

end Language

/-! ## Names of members -/

/-- The field for the raw kind of a node that gets a type has a name that both languages admit. -/
lemma Store.GetsType.admits_field {s : Store} {n : SchemaNode} (h : s.GetsType n) (l : Language) :
    Naming.isIdentifier n.raw.field.name = true ∧ n.raw.field.name ∉ l.keywords := by
  unfold GetsType at h
  unfold SchemaNode.raw
  split at h
  · next hraw => rw [hraw]; cases l <;> decide +kernel
  · next hraw => rw [hraw]; cases l <;> decide +kernel
  · next hraw => rw [hraw]; cases l <;> decide +kernel
  · cases h

namespace Drafting

lemma Steps.reservedMembers {s : Setting} {d d' : Drafting} (h : Steps s d d') :
    d'.model.reservedMembers = d.model.reservedMembers := by
  induction h with
  | refl => rfl
  | tail _ step ih =>
    rw [← ih]
    cases step <;> rfl

lemma reservedMembers_beginPass (loader : Loader) (config : Config) (l : Language) (namespaceName : String)
    (store : Store) :
    (beginPass loader config l namespaceName store).2.model.reservedMembers = l.model.reservedMembers := by
  cases l <;> rfl

/-- Whatever text a name is made from and however often it is varied, it is spelled like the name of a type. After a
pass that succeeds the types are named so, and the methods like methods; no type and no member has a reserved name,
and every name in the code of a class is an identifier of the language and none of its words. -/
theorem names_of_pass {loader : Loader} {config : Config} {l : Language} {namespaceName : String} {store : Store}
    {root : SchemaNode} {d : Drafting} (hstore : store.Genuine) (hroot : root ∈ store.nodes)
    (hok : outcome (pass (beginPass loader config l namespaceName store).1 root)
      (beginPass loader config l namespaceName store).2 = (.ok ⟨⟩, d)) :
    (∀ text k, Naming.isTypeName (Naming.vary^[k] (Naming.identifier text)) = true) ∧
      ∀ t ∈ d.model.types,
        Naming.isTypeName t.name = true ∧ t.name ∉ l.model.reservedTypes ∧
        (∀ method ∈ t.methods, Naming.IsMethodName method.name) ∧
        (∀ name ∈ t.memberNames, name ∉ l.model.reservedMembers) ∧
        ∀ name ∈ t.names, Naming.isIdentifier name = true ∧ name ∉ l.keywords := by
  refine ⟨fun text k => Naming.isTypeName_iterate_vary (Naming.isTypeName_identifier text) k, fun t ht => ?_⟩
  have hempty := types_beginPass loader config l namespaceName store
  have hreserved := reservedTypes_beginPass loader config l namespaceName store
  have hmembers := reservedMembers_beginPass loader config l namespaceName store
  rw [snd_beginPass] at hok
  have hsteps := (leads_pass root).steps hok
  have hworded := outcome_leads (keepsWording_pass root _) hok (worded_start _ store hempty)
  have hunreserved : t.name ∉ l.model.reservedTypes := by
    rw [← hreserved]
    have hapart := (hsteps.namesApart (namesApart_start hempty)).named.reserved t ht
    rwa [hsteps.reservedTypes] at hapart
  have haccounted : Accounted (beginPass loader config l namespaceName store).1 store root (fun _ => {}) [] []
      (start store (beginPass loader config l namespaceName store).2.model) := accounted_start hstore _
  obtain ⟨-, hfilled⟩ := filled_of_pass haccounted (owned_start store hempty) hroot hok
  obtain ⟨n, -, hgets, f, hf⟩ := hfilled t ht
  have hspelled := hworded.spelled t ht
  refine ⟨hspelled, hunreserved, hworded.named t ht, ?_, fun name hname => ?_⟩
  · rw [← hmembers]
    have hfree := hworded.unreserved t ht
    rwa [hsteps.reservedMembers] at hfree
  · rcases List.mem_cons.1 (hf.names_subset hname) with rfl | hname
    · refine ⟨Naming.isIdentifier_of_isTypeName hspelled, fun hword => ?_⟩
      exact hunreserved (l.reserved_of_keyword hword hspelled)
    rcases List.mem_cons.1 hname with rfl | hname
    · exact hgets.admits_field l
    rcases List.mem_cons.1 hname with rfl | hname
    · cases l <;> decide +kernel
    · obtain ⟨method, hmethod, rfl⟩ := List.mem_map.1 hname
      have hmethodName := hworded.named t ht method hmethod
      exact ⟨Naming.isIdentifier_of_isMethodName hmethodName, l.notMem_keywords_of_isMethodName hmethodName⟩

/-! ### Keys that are no names -/

namespace Odd

def members : Members :=
  [("properties", .obj
    [("class", .obj [("type", .str "string")]), ("größe", .obj [("type", .str "boolean")]),
      ("9 lives", .obj [("type", .str "array")]), ("ключ.json", .obj [("properties", .obj [("", .obj [])])])])]

def store : Store :=
  ⟨[⟨"None", survey (.root "None") (.obj members)⟩]⟩

def root : SchemaNode :=
  .root ⟨"None", [], "None", "None", members⟩

def begun (l : Language) : Setting × Drafting :=
  beginPass ⟨[], ⟨[]⟩, .top⟩ {} l "" store

def last (l : Language) : Drafting :=
  (outcome (pass (begun l).1 root) (begun l).2).2

lemma genuine : store.Genuine :=
  fun load hl => ⟨members, by rw [List.mem_singleton.1 hl]⟩

lemma root_mem : root ∈ store.nodes :=
  Store.mem_nodes.2 ⟨_, List.mem_singleton_self _,
    node_mem_survey (show (Position.root "None").enter members = .ok (root, [("None", [])]) from rfl)⟩

lemma passes (l : Language) : outcome (pass (begun l).1 root) (begun l).2 = (.ok ⟨⟩, last l) :=
  eq_ok_of_toBool (by cases l <;> decide +kernel)

end Odd

/-- A document with the name of a word of Python, and keys that are words, that begin with a digit, and that have
no letter of ASCII. -/
theorem names_of_pass_of_odd_keys :
    (Odd.last .python).model.types.map (·.name) = ["None2", "Item9Lives", "Schema", "Schema2"] ∧
      (Odd.last .java).model.types.map (fun t => t.methods.map (·.name)) =
        [["getObject", "getClass2", "hasClass2", "isGrE", "hasGrE", "getItem9Lives", "hasItem9Lives", "getJson",
          "hasJson"], ["getJsonArray", "size"], ["getObject", "getSchema", "hasSchema"], ["getObject"]] ∧
      ∀ l : Language, ∀ t ∈ (Odd.last l).model.types,
        ∀ name ∈ t.names, Naming.isIdentifier name = true ∧ name ∉ l.keywords :=
  ⟨by decide +kernel, by decide +kernel, fun l t ht =>
    ((names_of_pass Odd.genuine Odd.root_mem (Odd.passes l)).2 t ht).2.2.2.2⟩

end Drafting

end SchemaAccessors
