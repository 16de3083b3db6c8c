import SchemaAccessors.Proofs.JavaOutline
import SchemaAccessors.Proofs.Nesting
import SchemaAccessors.Proofs.PythonOutline
import SchemaAccessors.Proofs.Validity

/-!
# The shape of generated code

What a generation declares is what its code shows. Read by its indentation, the code has one class for each type, in
the class of the type around it, with its methods in the order of declaration and then the classes in it. Python has one
module for all types; Java has one file for each top-level type, and their paths differ since their names do.
-/

namespace SchemaAccessors

namespace Language

def reading : Language → Reading
  | python => Render.Python.reading
  | java => Render.Java.reading

/-- How the classes on top level are put into files. -/
def filed : Language → List TypeTree → List (List TypeTree)
  | python, trees => [trees]
  | java, trees => trees.map fun tree => [tree]

end Language

namespace Generation

/-- What is copied into code from outside of the documents is on one line, and the package has no parenthesis, which
would end the name of a method before its type. -/
structure CopiesLines (g : Generation) : Prop where
  commandLine : '\n' ∉ g.commandLine.toList
  package : ∀ package, g.config.javaPackage = .str package → ∀ c ∈ package.toList, c ≠ '\n' ∧ c ≠ '('

section Sources

variable {g : Generation} {l : Language} {name : String} {root : SchemaNode} {d d' : Drafting}
  {files : Render.Sources}

/-- Behind a generation that succeeds is a pass that does, begun without types, and it leaves the same model. -/
lemma exists_pass_of_sources (hok : outcome (g.sources l name root) d = (.ok files, d')) :
    ∃ s model d₁, s.namespaceIndex = 0 ∧ model.types = [] ∧ model.reservedTypes = l.model.reservedTypes ∧
      outcome (Drafting.pass s root) { Drafting.start d.store model with trace := d.trace } = (.ok ⟨⟩, d₁) ∧
      d'.model = d₁.model := by
  obtain ⟨_, d₁, -, hbuild, -, -, hmodel⟩ := exists_build_of_sources hok
  obtain ⟨namespaceName, d₂, -, hpass, hlast⟩ := exists_pass_of_build hbuild
  have hempty := Drafting.types_beginPass g.loader g.config l namespaceName d.store
  have hindex := Drafting.namespaceIndex_beginPass g.loader g.config l namespaceName d.store
  have hreserved := Drafting.reservedTypes_beginPass g.loader g.config l namespaceName d.store
  rw [Drafting.snd_beginPass] at hpass
  exact ⟨_, _, d₂, hindex, hempty, hreserved, hpass, hmodel.trans (congrArg (·.model) hlast)⟩

/-- The types that a generation leaves are named apart, behind the types around them and in one namespace. -/
lemma laidOut_of_sources (hok : outcome (g.sources l name root) d = (.ok files, d')) :
    d'.model.WellNamed ∧ d'.model.Layered ∧ d'.model.Within 0 := by
  obtain ⟨s, model, d₁, hindex, hempty, -, hpass, hmodel⟩ := exists_pass_of_sources hok
  have hsteps : Drafting.Steps s (.start d.store model) d₁ :=
    (Relation.ReflTransGen.single (.record d.trace)).trans ((Drafting.leads_pass root).steps hpass)
  have hapart := hsteps.namesApart (Drafting.namesApart_start hempty)
  have huniform := hsteps.uniform (Drafting.uniform_start _ d.store hempty)
  rw [hmodel, ← hindex]
  exact ⟨hapart.named, hapart.layered, huniform.within⟩

/-- No type that a generation leaves has a name that is reserved in the language. -/
lemma not_reserved_of_sources (hok : outcome (g.sources l name root) d = (.ok files, d')) :
    ∀ t ∈ d'.model.types, t.name ∉ l.model.reservedTypes := by
  obtain ⟨s, model, d₁, -, hempty, hreserved, hpass, hmodel⟩ := exists_pass_of_sources hok
  have hsteps : Drafting.Steps s (.start d.store model) d₁ :=
    (Relation.ReflTransGen.single (.record d.trace)).trans ((Drafting.leads_pass root).steps hpass)
  have hapart := (hsteps.namesApart (Drafting.namesApart_start hempty)).named.reserved
  rwa [hsteps.reservedTypes, Drafting.start, hreserved, ← hmodel] at hapart

lemma CopiesLines.comment (h : g.CopiesLines) (l : Language) :
    '\n' ∉ (comment g.config l g.commandLine).toList ∧
      (comment g.config l g.commandLine = "" ∨ l.commentMark.toList <+: (comment g.config l g.commandLine).toList) := by
  unfold Generation.comment
  split
  · refine ⟨?_, .inr ?_⟩
    · simp only [toString, String.toList_append, List.mem_append, not_or, and_assoc]
      refine ⟨?_, by decide, by decide, by decide, by decide, by decide, h.commandLine⟩
      cases l <;> decide
    · simp only [toString, String.toList_append, List.append_assoc]
      exact List.prefix_append _ _
  · exact ⟨List.not_mem_nil, .inl rfl⟩

/-- Where a generation succeeds, the trees of the model hold each type once, where it was declared, and each file has
the outline of the trees in it: the header of each class in that of the class around it, and below it one for each
method, in the order of declaration, and then those of the classes in it. -/
theorem outline_of_sources (hlines : g.CopiesLines) (hstore : d.store.Genuine) (hroot : root ∈ d.store.nodes)
    (hok : outcome (g.sources l name root) d = (.ok files, d')) :
    d'.model.Nests (.top 0) (d'.model.trees 0) ∧
      (TypeTree.allIds (d'.model.trees 0)).Perm (List.range d'.model.types.length) ∧
      List.Forall₂ (fun trees file => l.reading.outline? file.2 = some (trees.map (TypeTree.outline 0)))
        (l.filed (d'.model.trees 0)) files ∧
      files.keys.Nodup := by
  obtain ⟨s, namespaceName, hname, hnamespaces, htold, hfiles⟩ := told_of_sources hstore hroot hok
  obtain ⟨hnamed, hlayered, hwithin⟩ := laidOut_of_sources hok
  obtain ⟨hends, hmark⟩ := hlines.comment l
  have hnests := hlayered.nests_trees 0
  have hplain : ∀ t ∈ d'.model.types, t.Plain := fun t ht => (htold t ht).plain
  refine ⟨hnests, hlayered.perm_ids hwithin, ?_⟩
  cases l with
  | python =>
    have hhash : comment g.config .python g.commandLine = "" ∨
        (comment g.config .python g.commandLine).toList.head? = some '#' := by
      refine hmark.imp_right fun ⟨rest, hrest⟩ => ?_
      rw [← hrest]
      rfl
    obtain ⟨path, text, rfl, houtline⟩ := Render.Python.outline?_of_sources hends hhash hplain hnamespaces hfiles
    exact ⟨.cons houtline .nil, List.nodup_singleton path⟩
  | java =>
    have hpackage := hlines.package namespaceName (javaPackage_of_namespaceName hname)
    obtain ⟨hmade, hpaths⟩ := Render.Java.outline?_of_sources hends hmark hpackage hplain hnamespaces
      (hnests.nodup_names hnamed) hfiles
    exact ⟨List.forall₂_map_left_iff.2 (hmade.imp fun _ _ hfile => hfile.2), hpaths⟩

end Sources

/-! ### A type in a type, with documentation that looks like code -/

namespace Lookalike

/-- It ends the line it is shown on, and then a docstring, and begins a class. -/
def uri : String := "s.json\n\"\"\"\nclass Fake:"

def members : Members :=
  [("type", .str "object"), ("properties", .obj [("inner", .obj
    [("type", .str "object"), ("properties", .obj [("n", .obj [("type", .str "string")])])])])]

def store : Store :=
  ⟨[⟨uri, survey (.root uri) (.obj members)⟩]⟩

def root : SchemaNode :=
  .root ⟨uri, [], uri, uri, members⟩

def generation : Generation :=
  ⟨⟨[], ⟨[]⟩, .top⟩, {}, programName⟩

def begun : Drafting :=
  .start store (.empty [] [])

def last (l : Language) : Drafting :=
  (outcome (generation.sources l "s" root) begun).2

lemma genuine : begun.store.Genuine := fun load hl =>
  ⟨members, by rw [List.mem_singleton.1 hl]⟩

lemma root_mem : root ∈ begun.store.nodes :=
  Store.mem_nodes.2 ⟨_, List.mem_singleton_self _,
    node_mem_survey (show (Position.root uri).enter members = .ok (root, [(uri, [])]) from rfl)⟩

lemma copiesLines : generation.CopiesLines := by
  refine ⟨by decide, ?_⟩
  rintro _ ⟨⟩
  decide

lemma exists_files (l : Language) :
    ∃ files, outcome (generation.sources l "s" root) begun = (.ok files, last l) ∧ files.length = 1 :=
  exists_of_map_toOption (by cases l <;> decide +kernel)

end Lookalike

/-- Both languages show a class in a class, and no class besides. -/
theorem outline_of_sources_of_lookalike :
    (∃ files, outcome (Lookalike.generation.sources .python "s" Lookalike.root) Lookalike.begun =
        (.ok files, Lookalike.last .python) ∧ files.length = 1 ∧
        TypeTree.allIds ((Lookalike.last .python).model.trees 0) = [0, 1] ∧
        List.Forall₂ (fun trees file => Language.python.reading.outline? file.2 = some (trees.map (TypeTree.outline 0)))
          (Language.python.filed ((Lookalike.last .python).model.trees 0)) files) ∧
      ∃ files, outcome (Lookalike.generation.sources .java "s" Lookalike.root) Lookalike.begun =
        (.ok files, Lookalike.last .java) ∧ files.length = 1 ∧
        TypeTree.allIds ((Lookalike.last .java).model.trees 0) = [0, 1] ∧
        List.Forall₂ (fun trees file => Language.java.reading.outline? file.2 = some (trees.map (TypeTree.outline 0)))
          (Language.java.filed ((Lookalike.last .java).model.trees 0)) files := by
  constructor
  · obtain ⟨files, hok, hlength⟩ := Lookalike.exists_files .python
    obtain ⟨-, -, houtline, -⟩ := outline_of_sources Lookalike.copiesLines Lookalike.genuine Lookalike.root_mem hok
    exact ⟨files, hok, hlength, by decide +kernel, houtline⟩
  · obtain ⟨files, hok, hlength⟩ := Lookalike.exists_files .java
    obtain ⟨-, -, houtline, -⟩ := outline_of_sources Lookalike.copiesLines Lookalike.genuine Lookalike.root_mem hok
    exact ⟨files, hok, hlength, by decide +kernel, houtline⟩

end Generation

end SchemaAccessors
