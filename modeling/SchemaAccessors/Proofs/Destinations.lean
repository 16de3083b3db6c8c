import SchemaAccessors.Output.Write
import SchemaAccessors.Proofs.Fragments
import SchemaAccessors.Proofs.Shape

/-!
# Where sources go

A Java source goes below the output directory, to a path that is made of its package and of the name of its class. The
path is read from a text in which each dot of the package has become a slash. So no component of it steps back, and the
last one is the name of a file. But a text that begins with a slash is read as an absolute path, and from a directory
that leads to where it does from anywhere. This file says that sources lie below the output for all packages that begin
with neither a dot nor a slash, and that for the others the output does not matter.
-/

namespace SchemaAccessors

/-! ## Paths below a directory -/

namespace Files.Path

/-- A path leads below the place that another one leads to, both from one directory. -/
def LeadsBelow (directory p q : Path) : Prop :=
  ∃ rest, rest ≠ [] ∧ (directory.resolve p).components = (directory.resolve q).components ++ rest

/-- Components that do not step back stay as they are. -/
lemma collapseFrom_append {behind : List String} (h : ".." ∉ behind) (stack components : List String) :
    collapseFrom stack (components ++ behind) = collapseFrom stack components ++ behind := by
  induction components generalizing stack with
  | nil =>
    induction behind generalizing stack with
    | nil => simp
    | cons c behind ih =>
      obtain ⟨hc, hbehind⟩ := List.ne_and_not_mem_of_not_mem_cons h
      have hrest : collapseFrom (c :: stack) behind = (c :: stack).reverse ++ behind := ih hbehind (c :: stack)
      calc collapseFrom stack (c :: behind)
        _ = collapseFrom (c :: stack) behind := if_neg hc.symm
        _ = stack.reverse ++ c :: behind := by rw [hrest, List.reverse_cons, List.append_assoc, List.singleton_append]
  | cons c components ih =>
    rw [List.cons_append, collapseFrom, collapseFrom]
    split <;> exact ih _

lemma components_join_join {directory p q : Path} (h : q.isAbsolute = false) :
    (directory.join (p.join q)).components = (directory.join p).components ++ q.components := by
  rw [join_of_relative h]
  unfold join
  split_ifs with hp hp'
  · rfl
  · exact absurd hp hp'
  · exact absurd ‹_› hp
  · simp

/-- A relative path that does not step back leads below the directory that it is joined to. -/
lemma leadsBelow_join {p q : Path} (h : q.isAbsolute = false) (hne : q.components ≠ []) (hback : ".." ∉ q.components)
    (directory : Path) : LeadsBelow directory (p.join q) p :=
  ⟨q.components, hne, by rw [resolve, resolve, components_join_join h, collapseFrom_append hback]⟩

lemma isAbsolute_ofString (text : String) : (ofString text).isAbsolute = true ↔ text.toList.head? = some '/' := by
  have hroot : rootOf text.toList = .relative ↔ text.toList.head? ≠ some '/' := by
    cases text.toList with
    | nil => simp [rootOf]
    | cons c rest =>
      unfold rootOf
      split <;> simp_all
  unfold isAbsolute ofString
  rw [decide_eq_true_iff, ne_eq, hroot, not_not]

end Files.Path

/-- The keys of a table of entries are those of the entries. -/
lemma Table.mem_keys_ofEntries {κ α : Type} [DecidableEq κ] {entries : List (κ × α)} {key : κ} :
    key ∈ (Table.ofEntries entries).keys ↔ key ∈ entries.map (·.1) := by
  have hfold (t : Table κ α) : key ∈ (entries.foldl (fun t e => Table.put t e.1 e.2) t).keys ↔
      key ∈ t.keys ∨ key ∈ entries.map (·.1) := by
    induction entries generalizing t with
    | nil => simp
    | cons e entries ih =>
      have hput : key ∈ (t.put e.1 e.2).keys ↔ key ∈ t.keys ∨ key = e.1 := by
        rw [Table.keys_put]
        split <;> aesop
      rw [List.foldl_cons, ih, hput, List.map_cons, List.mem_cons, or_assoc]
  rw [Table.ofEntries, hfold]
  simp [Table.keys]

namespace Render.Java

/-! ## The paths of files -/

/-- A package begins with a dot or a slash. -/
def beginsAtRoot (package : String) : Bool :=
  package.toList.head?.any fun c => c = '.' || c = '/'

lemma toList_filePath (package name : String) :
    (filePath package name).toList =
      (if package = "" then [] else (package.toList.map fun c => if c = '.' then '/' else c) ++ ['/']) ++
        (name.toList ++ ".java".toList) := by
  have hempty : (package.toList.map fun c => if c = '.' then '/' else c) = [] ↔ package = "" := by simp
  unfold filePath
  simp only [String.isEmpty_iff, String.ofList_eq_empty_iff, hempty]
  split <;> simp

/-- No component of the path of a file steps back, and there is one. -/
lemma components_filePath (package : String) {name : String} (hname : ∀ c ∈ name.toList, c.isAlphanum = true) :
    ".." ∉ (Files.Path.ofString (filePath package name)).components ∧
      (Files.Path.ofString (filePath package name)).components ≠ [] := by
  set stem := package.toList.map fun c => if c = '.' then '/' else c with hstem
  have hdot : '.' ∉ stem := by
    rw [hstem, List.mem_map]
    rintro ⟨c, -, hc⟩
    split at hc
    · cases hc
    · contradiction
  have hslash : '/' ∉ (name ++ ".java").toList := by
    rw [String.toList_append, List.mem_append, not_or]
    exact ⟨fun h => absurd (hname _ h) (by decide), by decide⟩
  have hlong : 2 < (name ++ ".java").toList.length := by
    rw [String.toList_append, List.length_append]
    exact Nat.lt_add_left _ (by decide)
  have hapart (text : String) (htext : text.toList.length ≤ 2) : name ++ ".java" ≠ text := by
    rintro rfl
    exact absurd htext hlong.not_ge
  -- the parts before the name of the file are free of dots, so none of them is `..`
  have hsplit : ∃ parts : List (List Char), (∀ part ∈ parts, '.' ∉ part) ∧
      (filePath package name).toList.splitOn '/' = parts ++ [(name ++ ".java").toList] := by
    rw [toList_filePath, ← String.toList_append]
    split
    · exact ⟨[], by simp, List.splitOn_eq_singleton hslash⟩
    · refine ⟨stem.splitOn '/', fun part hpart h => hdot (Uri.splitOn_subset hpart h), ?_⟩
      rw [List.append_assoc, List.singleton_append, List.splitOn_append_cons_self, List.splitOn_eq_singleton hslash]
  obtain ⟨parts, hparts, hsplit⟩ := hsplit
  have hcomponents : (Files.Path.ofString (filePath package name)).components =
      ((parts.map String.ofList).filter fun c => c ≠ "" && c ≠ ".") ++ [name ++ ".java"] := by
    rw [Files.Path.ofString, hsplit, List.map_append, List.filter_append]
    simp [hapart "" (by decide), hapart "." (by decide)]
  rw [hcomponents]
  refine ⟨fun hmem => ?_, by simp⟩
  rcases List.mem_append.1 hmem with hmem | hmem
  · obtain ⟨part, hpart, hback⟩ := List.mem_map.1 (List.mem_filter.1 hmem).1
    refine hparts part hpart ?_
    rw [← String.toList_ofList (l := part), hback]
    decide
  · exact hapart ".." (by decide) (List.mem_singleton.1 hmem).symm

lemma isAbsolute_filePath (package : String) {name : String} (hname : ∀ c ∈ name.toList, c.isAlphanum = true) :
    (Files.Path.ofString (filePath package name)).isAbsolute = beginsAtRoot package := by
  rw [Bool.eq_iff_iff, Files.Path.isAbsolute_ofString, toList_filePath, beginsAtRoot]
  by_cases hpackage : package = ""
  · rw [if_pos hpackage, List.nil_append, hpackage]
    cases h : name.toList with
    | nil => decide
    | cons c rest =>
      have hc : c ≠ '/' := by
        rintro rfl
        exact absurd (hname '/' (by simp [h])) (by decide)
      simp [hc]
  · rw [if_neg hpackage]
    obtain ⟨c, rest, hcons⟩ := List.exists_cons_of_ne_nil (fun h => hpackage (String.toList_eq_nil_iff.1 h))
    by_cases hdot : c = '.' <;> simp [hcons, hdot]

end Render.Java

/-! ## The targets of a generation -/

namespace Output

open Files (Path)

variable {output p : Path} {sources : Render.Sources}

lemma mem_keys_targets :
    p ∈ (Table.ofEntries (sources.map fun (path, content) => (output.join (Path.ofString path), content))).keys ↔
      ∃ file ∈ sources, output.join (Path.ofString file.1) = p := by
  rw [Table.mem_keys_ofEntries, List.map_map, List.mem_map]
  rfl

/-- Sources with absolute paths go where they go from any directory. -/
lemma targets_of_absolute (h : ∀ file ∈ sources, (Path.ofString file.1).isAbsolute = true) :
    targets output (some .java) sources =
      .ok (.ofEntries (sources.map fun (path, content) => (Path.ofString path, content))) := by
  have hjoin : (sources.map fun (path, content) => (output.join (Path.ofString path), content)) =
      sources.map fun (path, content) => (Path.ofString path, content) :=
    List.map_congr_left fun file hfile => congrArg (·, file.2) (if_pos (h file hfile))
  exact congrArg (fun entries => Except.ok (Table.ofEntries entries)) hjoin

end Output

namespace Generation

open Files (Path)
open Output (targets)
open Render.Java (beginsAtRoot filePath)

section Sources

variable {g : Generation} {name : String} {root : SchemaNode} {d d' : Drafting} {files : Render.Sources}

/-- The files of a generation are named for types with plain names, in the package that is configured. -/
lemma exists_package_of_sources (hstore : d.store.Genuine) (hroot : root ∈ d.store.nodes)
    (hok : outcome (g.sources .java name root) d = (.ok files, d')) :
    ∃ package, g.config.javaPackage = .str package ∧ ∀ file ∈ files, ∃ type : String,
      (∀ c ∈ type.toList, c.isAlphanum = true) ∧ file.1 = filePath package type := by
  obtain ⟨_, package, hpackage, hnamespaces, htold, hfiles⟩ := told_of_sources hstore hroot hok
  obtain ⟨hnamed, hlayered, -⟩ := laidOut_of_sources hok
  have hnests := hlayered.nests_trees 0
  refine ⟨package, javaPackage_of_namespaceName hpackage, fun file hfile => ?_⟩
  obtain ⟨hmade, -⟩ := Render.Java.forall₂_of_sources (P := fun _ _ => True) (fun _ _ _ _ => trivial) hnamespaces
    (hnests.nodup_names hnamed) hfiles
  obtain ⟨tree, htree, hpath, -⟩ := exists_of_forall₂ hmade.flip file hfile
  have hroot : tree.root.2 ∈ tree.types := by
    cases tree
    exact List.mem_cons_self
  have hmem := d'.model.types_treesFrom _ _ (TypeTree.types_subset_allTypes htree hroot)
  exact ⟨tree.root.2.name, (htold _ hmem).plain _ List.mem_cons_self, hpath⟩

/-- Where a generation for Java succeeds, its files go below the output directory, from any directory, if the package
begins with neither a dot nor a slash. If it does, they go to absolute paths that are the same for all outputs. -/
theorem destinations_of_sources (hstore : d.store.Genuine) (hroot : root ∈ d.store.nodes)
    (hok : outcome (g.sources .java name root) d = (.ok files, d')) :
    ∃ package, g.config.javaPackage = .str package ∧
      (beginsAtRoot package = false → ∀ output directory, ∃ table, targets output (some .java) files = .ok table ∧
        ∀ p ∈ table.keys, Path.LeadsBelow directory p output) ∧
      (beginsAtRoot package = true → ∃ table, (∀ output, targets output (some .java) files = .ok table) ∧
        ∀ p ∈ table.keys, p.isAbsolute = true) := by
  obtain ⟨package, hpackage, hfiles⟩ := exists_package_of_sources hstore hroot hok
  refine ⟨package, hpackage, fun hrelative output directory => ⟨_, rfl, fun p hp => ?_⟩, fun habsolute => ?_⟩
  · obtain ⟨file, hfile, rfl⟩ := Output.mem_keys_targets.1 hp
    obtain ⟨type, htype, hpath⟩ := hfiles file hfile
    obtain ⟨hback, hsome⟩ := Render.Java.components_filePath package htype
    have hjoined := (Render.Java.isAbsolute_filePath package htype).trans hrelative
    rw [hpath]
    exact Path.leadsBelow_join hjoined hsome hback directory
  · have hall : ∀ file ∈ files, (Path.ofString file.1).isAbsolute = true := by
      intro file hfile
      obtain ⟨type, htype, hpath⟩ := hfiles file hfile
      rw [hpath, Render.Java.isAbsolute_filePath package htype, habsolute]
    refine ⟨_, fun output => Output.targets_of_absolute hall, fun p hp => ?_⟩
    rw [Table.mem_keys_ofEntries, List.map_map, List.mem_map] at hp
    obtain ⟨file, hfile, rfl⟩ := hp
    exact hall file hfile

end Sources

/-! ### A type in a package -/

namespace Packaged

def members : Members :=
  [("type", .str "object"), ("properties", .obj [("n", .obj [("type", .str "string")])])]

def store : Store :=
  ⟨[⟨defaultUri, survey (.root defaultUri) (.obj members)⟩]⟩

def root : SchemaNode :=
  .root ⟨defaultUri, [], defaultUri, defaultUri, members⟩

def generation (package : String) : Generation :=
  ⟨⟨[], ⟨[]⟩, .top⟩, { javaPackage := .str package }, programName⟩

def begun : Drafting :=
  .start store (.empty [] [])

def last (package : String) : Drafting :=
  (outcome ((generation package).sources .java "schema" root) begun).2

lemma genuine : begun.store.Genuine := fun load hl =>
  ⟨members, by rw [List.mem_singleton.1 hl]⟩

lemma root_mem : root ∈ begun.store.nodes :=
  Store.mem_nodes.2 ⟨_, List.mem_singleton_self _,
    node_mem_survey (show (Position.root defaultUri).enter members = .ok (root, [(defaultUri, [])]) from rfl)⟩

end Packaged

/-- The one file of a package goes below any output. -/
theorem destinations_of_package :
    ∃ files, outcome ((Packaged.generation "com.shapes").sources .java "schema" Packaged.root) Packaged.begun =
        (.ok files, Packaged.last "com.shapes") ∧
      files.keys = ["com/shapes/Schema.java"] ∧
      ∀ output directory, ∃ table, targets output (some .java) files = .ok table ∧
        ∀ p ∈ table.keys, Path.LeadsBelow directory p output := by
  obtain ⟨files, hok, hkeys⟩ : ∃ files,
      outcome ((Packaged.generation "com.shapes").sources .java "schema" Packaged.root) Packaged.begun =
        (.ok files, Packaged.last "com.shapes") ∧ files.keys = ["com/shapes/Schema.java"] :=
    exists_of_map_toOption (by decide +kernel)
  obtain ⟨package, hpackage, hbelow, -⟩ := destinations_of_sources Packaged.genuine Packaged.root_mem hok
  obtain rfl : "com.shapes" = package := Json.str.inj hpackage
  exact ⟨files, hok, hkeys, hbelow (by decide)⟩

/-- The one file of a package that begins with a dot goes beside the output. -/
theorem beside_output :
    ∃ files table, outcome ((Packaged.generation ".etc").sources .java "schema" Packaged.root) Packaged.begun =
        (.ok files, Packaged.last ".etc") ∧
      targets (Path.ofString "out") (some .java) files = .ok table ∧
      table.keys = [Path.ofString "/etc/Schema.java"] ∧
      ∀ p ∈ table.keys, ¬ Path.LeadsBelow (Path.ofString "/work") p (Path.ofString "out") := by
  obtain ⟨files, hok, hkeys⟩ : ∃ files,
      outcome ((Packaged.generation ".etc").sources .java "schema" Packaged.root) Packaged.begun =
        (.ok files, Packaged.last ".etc") ∧
      (targets (Path.ofString "out") (some .java) files).toOption.map (·.keys) =
        some [Path.ofString "/etc/Schema.java"] :=
    exists_of_map_toOption (by decide +kernel)
  refine ⟨files, _, hok, rfl, Option.some.inj hkeys, fun p hp => ?_⟩
  obtain rfl : p = Path.ofString "/etc/Schema.java" :=
    List.mem_singleton.1 ((congrArg (p ∈ ·) (Option.some.inj hkeys)).mp hp)
  -- one begins with `etc`, the other with `work`
  rintro ⟨rest, -, hrest⟩
  have hetc : (Path.resolve (.ofString "/work") (.ofString "/etc/Schema.java")).components =
      ["etc", "Schema.java"] := by
    decide +kernel
  have hwork : (Path.resolve (.ofString "/work") (.ofString "out")).components = ["work", "out"] := by decide +kernel
  rw [hetc, hwork] at hrest
  exact absurd (List.cons.inj hrest).1 (by decide)

end Generation

end SchemaAccessors
