import SchemaAccessors.Generation
import SchemaAccessors.Proofs.Copying
import SchemaAccessors.Proofs.JavaCode
import SchemaAccessors.Proofs.PythonCode
import SchemaAccessors.Proofs.References

/-!
# Generated code and its checks

Generated code is checked before it is written. The checks look at whole files, with all that is copied into them: the
command line, the package, and the texts and URIs of the documents. For Java, a file passes if each of these closes
the braces that it opens; one brace in a key is enough for a file to be refused. For Python, all texts pass but for
null characters in URIs, and a file is refused for classes that lie too deep, and for nothing else.
-/

namespace SchemaAccessors

open Text (surplus IsInLine)

/-! ## Documentation -/

namespace Json

lemma ne_null_block {depth : Nat} {opening closing : String} {parts : List String}
    (hopening : ∀ c ∈ opening.toList, c ≠ '\x00') (hclosing : ∀ c ∈ closing.toList, c ≠ '\x00')
    (hparts : ∀ part ∈ parts, ∀ c ∈ part.toList, c ≠ '\x00') :
    ∀ c ∈ (block depth opening closing parts).toList, c ≠ '\x00' := by
  have hindentation (depth : Nat) : ∀ c ∈ (indentation depth).toList, c ≠ '\x00' := by
    intro c hc
    rw [indentation, String.toList_ofList] at hc
    rw [List.eq_of_mem_replicate hc]
    decide
  have hseparator : ∀ c ∈ ("," ++ ("\n" ++ indentation (depth + 1))).toList, c ≠ '\x00' := by
    simp only [String.toList_append, List.forall_mem_append]
    exact ⟨by decide, by decide, hindentation _⟩
  simp only [block, String.toList_append, List.forall_mem_append, and_assoc]
  refine ⟨hopening, by decide, hindentation _, ?_, by decide, hindentation _, hclosing⟩
  exact forall_mem_intercalate hseparator hparts

mutual

/-- Printed values have no null characters, whatever is in them. -/
lemma ne_null_indentedAt (depth : Nat) : (value : Json) → ∀ c ∈ (value.indentedAt depth).toList, c ≠ '\x00'
  | null => by
    rw [indentedAt]
    decide
  | bool b => by
    rw [indentedAt]
    cases b <;> decide
  | int n => fun c hc => (isInLine_of_isNumeral (isNumeral_int n c hc)).2
  | float x => fun c hc => (isInLine_of_isNumeral (x.isNumeral_json c hc)).2
  | str s => fun c hc => (isInLine_encodeString s c hc).2
  | arr [] => by
    rw [indentedAt]
    decide
  | arr (x :: xs) => by
    rw [indentedAt]
    refine ne_null_block (by decide) (by decide) (List.forall_mem_cons.2 ⟨ne_null_indentedAt (depth + 1) x, ?_⟩)
    exact ne_null_indentedElements (depth + 1) xs
  | obj [] => by
    rw [indentedAt]
    decide
  | obj ((key, x) :: ms) => by
    rw [indentedAt]
    refine ne_null_block (by decide) (by decide) (List.forall_mem_cons.2 ⟨?_, ne_null_indentedMembers (depth + 1) ms⟩)
    simp only [String.toList_append, List.forall_mem_append]
    exact ⟨⟨fun c hc => (isInLine_encodeString key c hc).2, by decide⟩, ne_null_indentedAt (depth + 1) x⟩

lemma ne_null_indentedElements (depth : Nat) : (xs : List Json) →
    ∀ part ∈ indentedElements depth xs, ∀ c ∈ part.toList, c ≠ '\x00'
  | [] => fun _ hpart => (List.not_mem_nil hpart).elim
  | x :: xs => List.forall_mem_cons.2 ⟨ne_null_indentedAt depth x, ne_null_indentedElements depth xs⟩

lemma ne_null_indentedMembers (depth : Nat) : (ms : Members) →
    ∀ part ∈ indentedMembers depth ms, ∀ c ∈ part.toList, c ≠ '\x00'
  | [] => fun _ hpart => (List.not_mem_nil hpart).elim
  | (key, x) :: ms => by
    refine List.forall_mem_cons.2 ⟨?_, ne_null_indentedMembers depth ms⟩
    simp only [String.toList_append, List.forall_mem_append]
    exact ⟨⟨fun c hc => (isInLine_encodeString key c hc).2, by decide⟩, ne_null_indentedAt depth x⟩

end

/-- An object that is printed ends with a brace that closes. -/
lemma getLast?_indented_obj (ms : Members) : (obj ms).indented.toList.getLast? = some '\x7d' := by
  cases ms with
  | nil => rfl
  | cons m ms =>
    obtain ⟨key, x⟩ := m
    rw [indented, indentedAt, block, String.toList_append, List.getLast?_append]
    rfl

end Json

namespace Text

/-- The names of types, as documentation shows them, neither open braces nor leave them open. -/
lemma surplus_quotedList_kinds (kinds : List Kind) : surplus (quotedList (kinds.map Kind.name)).toList = 0 := by
  have hword (k : Kind) : surplus (quoted k.name).toList = 0 := by
    cases k <;> decide +kernel
  have hjoined : surplus (String.intercalate ", " ((kinds.map Kind.name).map quoted)).toList = 0 := by
    refine surplus_intercalate_eq_zero (by decide) fun word hmem => ?_
    simp only [List.map_map, List.mem_map, Function.comp_apply] at hmem
    obtain ⟨k, -, rfl⟩ := hmem
    exact hword k
  simp only [quotedList, String.toList_append, surplus_append, hjoined]
  decide

lemma ne_null_quotedList (words : List String) : ∀ c ∈ (quotedList words).toList, c ≠ '\x00' := by
  simp only [quotedList, String.toList_append, List.forall_mem_append]
  refine ⟨⟨by decide, ?_⟩, by decide⟩
  refine forall_mem_intercalate (by decide) fun word hmem c hc => ?_
  obtain ⟨name, -, rfl⟩ := List.mem_map.1 hmem
  exact (isInLine_quoted name c hc).2

lemma getLast?_quotedList (words : List String) : (quotedList words).toList.getLast? = some ']' := by
  rw [quotedList, String.toList_append, List.getLast?_append]
  rfl

end Text

namespace Drafting

section Documentation

variable {s : Setting} {n : SchemaNode}

lemma surplus_documentation (huri : surplus n.uri.toList = 0)
    (htexts : ∀ text ∈ (Json.obj n.members).texts, surplus text.toList = 0) :
    surplus (documentation s n).toList = 0 := by
  have habout : ∀ line ∈ [s!"Created from {n.uri}", s!"Explicit types {Text.quotedList (n.kinds.map Kind.name)}",
      s!"Inferred types {Text.quotedList ((Members.inferredKinds n.members).map Kind.name)}"],
      surplus line.toList = 0 := by
    simp only [List.forall_mem_cons, toString, String.toList_append, Text.surplus_append, huri,
      Text.surplus_quotedList_kinds]
    exact ⟨by decide, by decide, by decide, fun _ hline => (List.not_mem_nil hline).elim⟩
  refine Text.surplus_intercalate_eq_zero (by decide) (List.forall_mem_append.2 ⟨habout, ?_⟩)
  split
  · exact List.forall_mem_singleton.2 (Json.surplus_indentedAt 0 _ htexts)
  · exact fun _ hline => (List.not_mem_nil hline).elim

lemma ne_null_documentation (huri : '\x00' ∉ n.uri.toList) : '\x00' ∉ (documentation s n).toList := by
  have hline : ∀ c ∈ n.uri.toList, c ≠ '\x00' := fun c hc hnull => huri (hnull ▸ hc)
  have habout : ∀ line ∈ [s!"Created from {n.uri}", s!"Explicit types {Text.quotedList (n.kinds.map Kind.name)}",
      s!"Inferred types {Text.quotedList ((Members.inferredKinds n.members).map Kind.name)}"],
      ∀ c ∈ line.toList, c ≠ '\x00' := by
    simp only [List.forall_mem_cons, toString, String.toList_append, List.forall_mem_append]
    exact ⟨⟨by decide, hline⟩, ⟨by decide, Text.ne_null_quotedList _⟩, ⟨by decide, Text.ne_null_quotedList _⟩,
      fun _ hline => (List.not_mem_nil hline).elim⟩
  have hall : ∀ c ∈ (documentation s n).toList, c ≠ '\x00' := by
    refine forall_mem_intercalate (by decide) (List.forall_mem_append.2 ⟨habout, ?_⟩)
    split
    · exact List.forall_mem_singleton.2 (Json.ne_null_indentedAt 0 _)
    · exact fun _ hline => (List.not_mem_nil hline).elim
  exact fun hmem => hall _ hmem rfl

/-- Documentation ends where a list of types or a printed object ends. -/
lemma getLast?_documentation : (documentation s n).toList.getLast? ≠ some '\x7b' := by
  have hlast (texts : List String) {last : String} {c : Char} (h : last.toList.getLast? = some c) :
      (String.intercalate "\n" (texts ++ [last])).toList.getLast? = some c := by
    obtain ⟨before, hsplit⟩ := suffix_intercalate "\n" texts last
    rw [← hsplit, List.getLast?_append, h]
    rfl
  unfold documentation
  dsimp only
  split
  · rw [hlast _ (Json.getLast?_indented_obj n.members)]
    decide
  · have hkinds :
        s!"Inferred types {Text.quotedList ((Members.inferredKinds n.members).map Kind.name)}".toList.getLast? =
          some ']' := by
      simp only [toString, String.toList_append, List.getLast?_append, Text.getLast?_quotedList]
      rfl
    rw [List.append_nil]
    exact (hlast [_, _] hkinds).trans_ne (by decide)

/-- The braces of a type that a pass leaves are those of its documentation and of its methods. -/
lemma Told.ended {d : Drafting} {t : WrapperType} (h : d.Told s t) : t.Ended where
  plain := h.plain
  closed := by
    obtain ⟨n, -, hdoc⟩ := h.documented
    rw [hdoc]
    exact getLast?_documentation

end Documentation

end Drafting

/-! ## Generations -/

namespace Generation

section Sources

variable {g : Generation} {l : Language} {name : String} {root : SchemaNode} {d d' : Drafting}
  {files : Render.Sources}

/-- What is copied into Java code closes the braces that it opens. -/
structure ClosesBraces (g : Generation) (s : Store) : Prop where
  commandLine : surplus g.commandLine.toList = 0
  package : ∀ package, g.config.javaPackage = .str package → surplus package.toList = 0
  uris : ∀ n ∈ s.nodes, surplus n.uri.toList = 0
  texts : ∀ n ∈ s.nodes, ∀ text ∈ (Json.obj n.members).texts, surplus text.toList = 0

/-- What is copied into Python code as it is has no null character, and the command line is one line. -/
structure ShowsAll (g : Generation) (s : Store) : Prop where
  commandLine : ∀ c ∈ g.commandLine.toList, IsInLine c
  uris : ∀ n ∈ s.nodes, '\x00' ∉ n.uri.toList

/-- Drafting for a generation is a pass, with a record of how it ended. -/
lemma exists_pass_of_build (hok : outcome (g.build l name root) d = (.ok ⟨⟩, d')) :
    ∃ namespaceName d₁, namespaceName = (g.config.namespaceName l name).toOption.getD "" ∧
      outcome (Drafting.pass (Drafting.beginPass g.loader g.config l namespaceName d.store).1 root)
        { (Drafting.beginPass g.loader g.config l namespaceName d.store).2 with trace := d.trace } = (.ok ⟨⟩, d₁) ∧
      d' = { d₁ with trace := d₁.trace.push (.generated d₁.model.allTypes.length root.uri) } := by
  unfold build at hok
  obtain ⟨d₀, e₀, hget, hok⟩ := outcome_bind_eq_ok hok
  obtain ⟨rfl, rfl⟩ : d = d₀ ∧ d = e₀ := by simpa using hget
  dsimp only at hok
  obtain ⟨⟨⟩, e₁, hset, hok⟩ := outcome_bind_eq_ok hok
  obtain rfl := congrArg Prod.snd hset
  obtain ⟨id, e₂, hcomplete, hok⟩ := outcome_bind_eq_ok hok
  obtain ⟨⟨⟩, e₃, hfinish, hok⟩ := outcome_bind_eq_ok hok
  obtain ⟨d₄, e₄, hlast, hnote⟩ := outcome_bind_eq_ok hok
  obtain ⟨rfl, rfl⟩ : e₃ = d₄ ∧ e₃ = e₄ := by simpa using hlast
  obtain rfl := congrArg Prod.snd hnote
  exact ⟨_, e₃, rfl, (outcome_bind_of_ok hcomplete).trans hfinish, rfl⟩

/-- Rendering changes neither the store nor the model. -/
lemma exists_build_of_sources (hok : outcome (g.sources l name root) d = (.ok files, d')) :
    ∃ namespaceName d₁, g.config.namespaceName l name = .ok namespaceName ∧
      outcome (g.build l name root) d = (.ok ⟨⟩, d₁) ∧
      l.sources d₁.model (comment g.config l g.commandLine) = .ok files ∧
      d'.store = d₁.store ∧ d'.model = d₁.model := by
  unfold sources at hok
  obtain ⟨⟨⟩, d₁, hbuild, hok⟩ := outcome_bind_eq_ok hok
  obtain ⟨namespaceName, e₁, hname, hok⟩ := outcome_bind_eq_ok hok
  obtain ⟨hnamed, rfl⟩ := Prod.mk.inj hname
  obtain ⟨d₂, e₂, hget, hok⟩ := outcome_bind_eq_ok hok
  obtain ⟨rfl, rfl⟩ : d₁ = d₂ ∧ d₁ = e₂ := by simpa using hget
  obtain ⟨files', e₃, hfiles, hok⟩ := outcome_bind_eq_ok hok
  obtain ⟨hrendered, rfl⟩ := Prod.mk.inj hfiles
  have hlast {e : Drafting} (h : outcome (pure files' : DraftM Render.Sources) e = (.ok files, d')) :
      files' = files ∧ e = d' := by simpa using h
  have hnotes : files' = files ∧ d'.store = d₁.store ∧ d'.model = d₁.model := by
    dsimp only at hok
    split at hok
    · obtain ⟨formatter, e₄, hformatter, hok⟩ := outcome_bind_eq_ok hok
      obtain ⟨-, rfl⟩ := Prod.mk.inj hformatter
      split at hok
      · obtain ⟨⟨⟩, e₅, hnoted, hok⟩ := outcome_bind_eq_ok hok
        have hkept := outcome_forM_leads (h := fun _ => Drafting.note .unformatted)
          (R := fun a b : Drafting => b.store = a.store ∧ b.model = a.model) (fun _ => ⟨rfl, rfl⟩)
          (fun hab hbc => ⟨hbc.1.trans hab.1, hbc.2.trans hab.2⟩) files' (fun _ _ _ => ⟨rfl, rfl⟩) d₁
        obtain ⟨rfl, rfl⟩ := hlast hok
        exact ⟨rfl, outcome_leads (R := fun a b : Drafting => b.store = a.store ∧ b.model = a.model) hkept hnoted⟩
      · obtain ⟨rfl, rfl⟩ := hlast hok
        exact ⟨rfl, rfl, rfl⟩
    · obtain ⟨rfl, rfl⟩ := hlast hok
      exact ⟨rfl, rfl, rfl⟩
  obtain ⟨rfl, hkept⟩ := hnotes
  exact ⟨namespaceName, d₁, hnamed, hbuild, hrendered, hkept⟩

/-- A generation that succeeds leaves a model with one namespace, and types as a pass leaves them. -/
lemma told_of_sources (hstore : d.store.Genuine) (hroot : root ∈ d.store.nodes)
    (hok : outcome (g.sources l name root) d = (.ok files, d')) :
    ∃ s namespaceName, g.config.namespaceName l name = .ok namespaceName ∧
      d'.model.namespaces = [namespaceName] ∧ (∀ t ∈ d'.model.types, d'.Told s t) ∧
      l.sources d'.model (comment g.config l g.commandLine) = .ok files := by
  obtain ⟨namespaceName, d₁, hname, hbuild, hfiles, hstore₁, hmodel₁⟩ := exists_build_of_sources hok
  obtain ⟨_, d₂, rfl, hpass, hlast⟩ := exists_pass_of_build hbuild
  have hstore₂ : d₁.store = d₂.store := congrArg (·.store) hlast
  have hmodel₂ : d₁.model = d₂.model := congrArg (·.model) hlast
  have hnamed : (g.config.namespaceName l name).toOption.getD "" = namespaceName := by
    rw [hname]
    rfl
  rw [hnamed] at hpass
  have hempty := Drafting.types_beginPass g.loader g.config l namespaceName d.store
  have hnamespaces := Drafting.namespaces_beginPass g.loader g.config l namespaceName d.store
  have hsteps := (Drafting.leads_pass root).steps hpass
  rw [Drafting.snd_beginPass] at hpass
  generalize Drafting.beginPass g.loader g.config l namespaceName d.store = begun at *
  have haccounted : Drafting.Accounted begun.1 d.store root (fun _ => {}) [] [] (.start d.store begun.2.model) :=
    Drafting.accounted_start hstore _
  have hworded := Drafting.worded_start begun.1 d.store hempty
  have htold := Drafting.told_of_pass (haccounted.read .refl d.trace) (Drafting.owned_start d.store hempty)
    (hworded.read d.store d.trace) hroot hpass
  rw [hmodel₁, hmodel₂]
  refine ⟨begun.1, namespaceName, hname, hsteps.namespaces.trans hnamespaces, fun t ht => ?_, ?_⟩
  · obtain ⟨hplain, hconstructed, hdocumented, hcopied⟩ := htold t ht
    rw [← hstore₂, ← hstore₁] at hdocumented hcopied
    exact ⟨hplain, hconstructed, hdocumented, hcopied⟩
  · rw [← hmodel₂]
    exact hfiles

lemma ClosesBraces.balanced {s : Setting} {t : WrapperType} (h : g.ClosesBraces d.store) (ht : d.Told s t) :
    t.Balanced where
  toEnded := ht.ended
  doc := by
    obtain ⟨n, hn, hdoc⟩ := ht.documented
    rw [hdoc]
    exact Drafting.surplus_documentation (h.uris n hn) (h.texts n hn)
  copied text htext := by
    obtain ⟨n, hn, hmem⟩ := ht.copied text htext
    exact h.texts n hn text hmem

lemma ShowsAll.regular {s : Setting} {t : WrapperType} (h : g.ShowsAll d.store) (ht : d.Told s t) : t.Regular where
  plain := ht.plain
  doc := by
    obtain ⟨n, hn, hdoc⟩ := ht.documented
    rw [hdoc]
    exact Drafting.ne_null_documentation (h.uris n hn)
  constructed := ht.constructed

lemma ClosesBraces.comment {s : Store} (h : g.ClosesBraces s) :
    surplus (comment g.config .java g.commandLine).toList = 0 := by
  have hprogram : surplus programName.toList = 0 := by decide
  have hversion : surplus version.toList = 0 := by decide
  unfold Generation.comment
  split
  · simp only [toString, String.toList_append, Text.surplus_append, hprogram, hversion, h.commandLine]
    decide
  · rfl

lemma ShowsAll.comment {s : Store} (h : g.ShowsAll s) :
    (∀ c ∈ (comment g.config .python g.commandLine).toList, IsInLine c) ∧
      (comment g.config .python g.commandLine = "" ∨
        (comment g.config .python g.commandLine).toList.head? = some '#') := by
  unfold Generation.comment
  split
  · refine ⟨?_, .inr (by simp [toString, Language.commentMark])⟩
    simp only [toString, String.toList_append, List.forall_mem_append, and_assoc]
    exact ⟨by decide, by decide, by decide, by decide, by decide, by decide, h.commandLine⟩
  · exact ⟨by decide, .inl rfl⟩

/-- The namespace of Java code has the name that the configuration has for a package. -/
lemma javaPackage_of_namespaceName {namespaceName : String}
    (h : g.config.namespaceName .java name = .ok namespaceName) : g.config.javaPackage = .str namespaceName := by
  unfold Config.namespaceName at h
  split at h
  · cases ‹Language.java = Language.python›
  · next package hpackage => rw [hpackage, Except.ok.inj h]
  · cases h

/-- Where a generation succeeds, all Java files pass their check if what is copied into them closes its braces; and
if what is copied into Python code shows, a module passes its check unless 99 classes lie inside one another. -/
theorem check_of_sources (hstore : d.store.Genuine) (hroot : root ∈ d.store.nodes)
    (hok : outcome (g.sources l name root) d = (.ok files, d')) :
    (l = .java → g.ClosesBraces d'.store → ∀ f ∈ files, Output.check (some l) f.2 = .ok ()) ∧
      (l = .python → g.ShowsAll d'.store → ∀ f ∈ files,
        (Output.check (some l) f.2 = .ok () ↔ ∀ tree ∈ d'.model.trees 0, tree.height < Output.mostLevels)) := by
  obtain ⟨s, namespaceName, hname, hnamespaces, htold, hfiles⟩ := told_of_sources hstore hroot hok
  constructor
  · rintro rfl hcloses f hf
    have hpackages : ∀ package ∈ d'.model.namespaces, surplus package.toList = 0 := by
      rw [hnamespaces, List.forall_mem_singleton]
      exact hcloses.package namespaceName (javaPackage_of_namespaceName hname)
    have hbalanced : ∀ t ∈ d'.model.types, t.Balanced := fun t ht => hcloses.balanced (htold t ht)
    have hnames := Render.Java.surplus_typeName (fun t ht => (hbalanced t ht).plain) hpackages
    obtain ⟨i, -, tree, htree, hcheck⟩ := Render.Java.checkJava_of_sources hcloses.comment hpackages
      (fun t ht => (hbalanced t ht).toEnded) hfiles f hf
    refine hcheck.2 (List.sum_eq_zero fun x hx => ?_)
    obtain ⟨t, ht, rfl⟩ := List.mem_map.1 hx
    have hmem := d'.model.types_treesFrom _ _ (TypeTree.types_subset_allTypes htree ht)
    exact Render.Java.typeSurplus_eq_zero hnames (hbalanced t hmem)
  · rintro rfl hshows f hf
    obtain ⟨hinLine, hmark⟩ := hshows.comment
    obtain ⟨i, hi, hcheck⟩ := Render.Python.checkPython_of_sources hinLine hmark
      (fun t ht => hshows.regular (htold t ht)) hfiles f hf
    rw [hnamespaces] at hi
    obtain rfl : i = 0 := by simpa using hi
    exact hcheck

end Sources

/-! ### Braces in a key -/

namespace Braced

def members (key : String) : Members :=
  [("type", .str "object"), ("properties", .obj [(key, .obj [("type", .str "string")])])]

def store (key : String) : Store :=
  ⟨[⟨"s.json", survey (.root "s.json") (.obj (members key))⟩]⟩

def root (key : String) : SchemaNode :=
  .root ⟨"s.json", [], "s.json", "s.json", members key⟩

def generation : Generation :=
  ⟨⟨[], ⟨[]⟩, .top⟩, {}, programName⟩

def begun (key : String) : Drafting :=
  .start (store key) (.empty [] [])

/-- What is left of a generation for the document with a key. -/
def last (l : Language) (key : String) : Drafting :=
  (outcome (generation.sources l "s" (root key)) (begun key)).2

lemma genuine (key : String) : (begun key).store.Genuine := fun load hl =>
  ⟨members key, by rw [List.mem_singleton.1 hl]⟩

lemma root_mem (key : String) : root key ∈ (begun key).store.nodes :=
  Store.mem_nodes.2 ⟨_, List.mem_singleton_self _,
    node_mem_survey (show (Position.root "s.json").enter (members key) = .ok (root key, [("s.json", [])]) from rfl)⟩

end Braced

/-- Braces that come in pairs do not matter for Java, and for Python no braces do. -/
theorem check_of_sources_of_paired_braces :
    (∃ files, outcome (Braced.generation.sources .java "s" (Braced.root "\x7b\x7d")) (Braced.begun "\x7b\x7d") =
        (.ok files, Braced.last .java "\x7b\x7d") ∧ files.length = 1 ∧
        ∀ f ∈ files, Output.check (some .java) f.2 = .ok ()) ∧
      ∃ files, outcome (Braced.generation.sources .python "s" (Braced.root "\x7b")) (Braced.begun "\x7b") =
        (.ok files, Braced.last .python "\x7b") ∧ files.length = 1 ∧
        ∀ f ∈ files, Output.check (some .python) f.2 = .ok () := by
  constructor
  · obtain ⟨files, hok, hlength⟩ := exists_of_map_toOption (f := List.length)
      (x := Braced.generation.sources .java "s" (Braced.root "\x7b\x7d")) (s := Braced.begun "\x7b\x7d") (b := 1)
      (by decide +kernel)
    have hpackage : ∀ package, Braced.generation.config.javaPackage = .str package → surplus package.toList = 0 := by
      rintro _ ⟨⟩
      decide
    refine ⟨files, hok, hlength, (check_of_sources (Braced.genuine _) (Braced.root_mem _) hok).1 rfl ?_⟩
    exact ⟨by decide, hpackage, by decide +kernel, by decide +kernel⟩
  · obtain ⟨files, hok, hlength⟩ := exists_of_map_toOption (f := List.length)
      (x := Braced.generation.sources .python "s" (Braced.root "\x7b")) (s := Braced.begun "\x7b") (b := 1)
      (by decide +kernel)
    have hcheck := (check_of_sources (Braced.genuine _) (Braced.root_mem _) hok).2 rfl
      ⟨by decide, by decide +kernel⟩
    exact ⟨files, hok, hlength, fun f hf => (hcheck f hf).2 (by decide +kernel)⟩

/-- One brace in a key is enough for the code to be refused, although it is generated and closes its blocks. -/
theorem refused_for_brace_in_key :
    ∃ files, outcome (Braced.generation.sources .java "s" (Braced.root "\x7b")) (Braced.begun "\x7b") =
      (.ok files, Braced.last .java "\x7b") ∧ ∃ f ∈ files, Output.check (some .java) f.2 ≠ .ok () := by
  obtain ⟨files, hok, hlength⟩ := exists_of_map_toOption (f := List.length)
    (x := Braced.generation.sources .java "s" (Braced.root "\x7b")) (s := Braced.begun "\x7b") (b := 1)
    (by decide +kernel)
  obtain ⟨f, rfl⟩ := List.length_eq_one_iff.1 hlength
  obtain ⟨s, namespaceName, hname, hnamespaces, htold, hfiles⟩ :=
    told_of_sources (Braced.genuine _) (Braced.root_mem _) hok
  obtain rfl := Json.str.inj (javaPackage_of_namespaceName hname)
  have hpackages : ∀ package ∈ (Braced.last .java "\x7b").model.namespaces, surplus package.toList = 0 := by
    decide +kernel
  obtain ⟨i, hi, tree, htree, hcheck⟩ := Render.Java.checkJava_of_sources (by decide) hpackages
    (fun t ht => (htold t ht).ended) hfiles f List.mem_cons_self
  have hbraces : ∀ i < (Braced.last .java "\x7b").model.namespaces.length,
      ∀ tree ∈ (Braced.last .java "\x7b").model.trees i,
        (tree.types.map (Render.Java.typeSurplus (Braced.last .java "\x7b").model)).sum ≠ 0 := by
    decide +kernel
  exact ⟨[f], hok, f, List.mem_cons_self, fun haccepted => hbraces i hi tree htree (hcheck.1 haccepted)⟩

end Generation

end SchemaAccessors
