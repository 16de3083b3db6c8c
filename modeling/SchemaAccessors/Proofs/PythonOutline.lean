import SchemaAccessors.Proofs.Outlines
import SchemaAccessors.Proofs.PythonCode

/-!
# Outlines of Python code

Read by its indentation, a module is the trees of types that it was made from: each class below the class it is in,
with its methods in front of the classes inside it. What documentation says does not matter, although it may look like
code, since no line of it is taken for the end of its docstring.
-/

namespace SchemaAccessors.Render.Python

/-! ## How Python is read -/

/-- The name that a text begins with. -/
def firstName (text : List Char) : String :=
  String.ofList (text.takeWhile fun c => c.isAlphanum || c = '_')

/-- The class or method that a line is the header of. Constructors do not count as methods. -/
def header? (text : List Char) : Option Header :=
  if "class ".toList <+: text then some (.type (firstName (text.drop 6)))
  else if "def ".toList <+: text then
    if firstName (text.drop 4) = "__init__" then none else some (.method (firstName (text.drop 4)))
  else none

/-- A line that begins with neither of the first letters heads nothing. -/
lemma header?_eq_none {c : Char} {rest : List Char} (hclass : c ≠ 'c') (hdef : c ≠ 'd') :
    header? (c :: rest) = none := by
  have hnoClass : ¬ "class ".toList <+: c :: rest := fun h => hclass (List.cons_prefix_cons.1 h).1.symm
  have hnoDef : ¬ "def ".toList <+: c :: rest := fun h => hdef (List.cons_prefix_cons.1 h).1.symm
  rw [header?, if_neg hnoClass, if_neg hnoDef]

lemma firstName_append {name rest : List Char} {c : Char} (hname : ∀ d ∈ name, (d.isAlphanum || d = '_') = true)
    (hc : (c.isAlphanum || c = '_') = false) : firstName (name ++ c :: rest) = String.ofList name := by
  rw [firstName, List.takeWhile_append_of_pos hname, List.takeWhile_cons_of_neg (by rw [hc]; exact Bool.false_ne_true),
    List.append_nil]

lemma header?_class {name : String} (hname : ∀ c ∈ name.toList, c.isAlphanum = true) (rest : List Char) :
    header? ("class ".toList ++ (name.toList ++ ':' :: rest)) = some (.type name) := by
  have hall : ∀ c ∈ name.toList, (c.isAlphanum || c = '_') = true := fun c hc => by rw [hname c hc, Bool.true_or]
  rw [header?, if_pos (List.prefix_append _ _)]
  show some (Header.type (firstName (name.toList ++ ':' :: rest))) = _
  rw [firstName_append hall (by decide), String.ofList_toList]

lemma header?_def {name : String} (hname : ∀ c ∈ name.toList, (c.isAlphanum || c = '_') = true) (rest : List Char) :
    header? ("def ".toList ++ (name.toList ++ '(' :: rest)) =
      if name = "__init__" then none else some (.method name) := by
  have hnot : ¬ "class ".toList <+: "def ".toList ++ (name.toList ++ '(' :: rest) := fun h =>
    absurd (List.cons_prefix_cons.1 h).1 (by decide)
  rw [header?, if_neg hnot, if_pos (List.prefix_append _ _)]
  show (if firstName (name.toList ++ '(' :: rest) = _ then _
    else some (Header.method (firstName (name.toList ++ _)))) = _
  rw [firstName_append hname (by decide), String.ofList_toList]

/-- Docstrings stand between lines of three quotation marks. -/
def reading : Reading where
  opens text := Text.strip text = marks
  closes text := Text.strip text = marks
  header? := header?
  blank text h := by
    have hblank := List.all_eq_true.1 h
    have hstrip : ¬ Text.strip text = marks := by
      rw [Text.strip_of_blank hblank]
      decide
    refine ⟨decide_eq_false hstrip, decide_eq_false hstrip, ?_⟩
    cases text with
    | nil => rfl
    | cons c rest =>
      have hc := hblank c List.mem_cons_self
      refine header?_eq_none ?_ ?_ <;>
      · rintro rfl
        exact absurd hc (by decide)

/-- A line that begins with a character other than a blank or a quotation mark opens no docstring. -/
lemma opens_eq_false {c : Char} {text : List Char} (hfirst : text.head? = some c) (hshown : Text.isBlank c = false)
    (hquote : c ≠ '"') : reading.opens text = false := by
  refine decide_eq_false fun hmarks => hquote ?_
  have hstrip := Text.head?_strip hfirst hshown
  rw [hmarks] at hstrip
  exact (Option.some.inj hstrip).symm

/-- A line that begins with a character other than these heads what it says. -/
lemma reads_line {line : String} {c : Char} {header : Option Header} (hends : '\n' ∉ line.toList)
    (hfirst : line.toList.head? = some c) (hshown : Text.isBlank c = false) (hquote : c ≠ '"')
    (hheader : header? line.toList = header) : reading.Reads [line] (header.map (Heading.mk 0)).toList := by
  rw [← hheader]
  exact .shown hends hfirst hshown (opens_eq_false hfirst hshown hquote)

/-- A statement that is no header. -/
lemma reads_statement {line : String} {c : Char} (hends : '\n' ∉ line.toList) (hfirst : line.toList.head? = some c)
    (hshown : Text.isBlank c = false) (hother : c ≠ '"' ∧ c ≠ 'c' ∧ c ≠ 'd') : reading.Reads [line] [] := by
  obtain ⟨rest, hline⟩ := List.head?_eq_some_iff.1 hfirst
  have hnone : header? line.toList = none := by
    rw [hline]
    exact header?_eq_none hother.2.1 hother.2.2
  exact reads_line hends hfirst hshown hother.1 hnone

/-! ## Members -/

/-- No line of documentation ends it, so it is passed over as a whole. -/
lemma reads_docstring (doc : String) : reading.Reads (docstring doc) [] := by
  refine .doc ?_ (by decide) (fun line hline => decide_eq_false fun hmarks => ?_) (by decide)
  · simp only [List.forall_mem_append, List.forall_mem_singleton]
    exact ⟨⟨by decide, fun line hline => Text.feed_notMem_of_mem_lines hline⟩, by decide⟩
  · obtain ⟨before, after, hcode, hbefore⟩ := Text.exists_of_strip (code line)
    have hsplit : line.toList = (line.toList.takeWhile (· = ' ') ++ before) ++ marks ++ after := by
      rw [List.append_assoc, List.append_assoc, ← hmarks, ← List.append_assoc before, ← hcode]
      exact List.takeWhile_append_dropWhile.symm
    have hlast := List.mem_of_getLast? (escaped_of_mem_lines hline _ _ hsplit)
    rcases List.mem_append.1 hlast with hblank | hblank
    · exact absurd (List.mem_takeWhile_imp hblank) (by decide)
    · exact absurd (hbefore _ hblank) (by decide)

section Members

variable {m : Model} (hnames : ∀ id, ∀ c ∈ (m.qualifiedName id).toList, Text.IsInLine c)

include hnames

lemma reads_constructorLines {c : Constructor} (h : ∀ name ∈ c.names, ∀ c ∈ name.toList, c.isAlphanum = true) :
    reading.Reads (constructorLines m c) [] := by
  have hends := (isCode_constructorLines hnames h).feed_notMem
  have hheader : header? s!"def __init__({parameters m c.parameters}) -> None:".toList = none := by
    have hname : ∀ c ∈ "__init__".toList, (c.isAlphanum || c = '_') = true := by decide
    have hdef := header?_def hname ((parameters m c.parameters).toList ++ ") -> None:".toList)
    simpa [toString] using hdef
  have hhead : reading.Reads [s!"def __init__({parameters m c.parameters}) -> None:"] [] :=
    reads_line (c := 'd') (hends _ List.mem_cons_self) (by simp [toString]) (by decide) (by decide) hheader
  unfold constructorLines
  dsimp only
  refine hhead.block (g := []) ?_
  split
  · exact reads_statement (c := 'p') (by decide) rfl (by decide) (by decide)
  · refine .statements fun line hline => ?_
    have hcode := isCode_assignments (fun p hp name hin => (List.forall_mem_append.1 h).2 name
      (List.mem_flatMap.2 ⟨p, hp, hin⟩)) line hline
    refine reads_statement (c := 's') (hcode.feed_notMem line List.mem_cons_self) ?_ (by decide) (by decide)
    obtain ⟨p, -, rfl⟩ := List.mem_map.1 hline
    simp [toString]

/-- A method is headed by its name. -/
lemma reads_methodLines {method : Method} {lines : List String} (h : methodLines m method = .ok lines)
    (hplain : ∀ name ∈ method.names, ∀ c ∈ name.toList, c.isAlphanum = true) :
    reading.Reads lines [⟨0, .method method.name⟩] := by
  have hends := (isCode_methodLines hnames h hplain).feed_notMem
  have hname : ∀ c ∈ method.name.toList, c.isAlphanum = true := hplain _ List.mem_cons_self
  unfold methodLines at h
  split at h
  · next body hsome =>
    obtain ⟨value, hexpr, hlast⟩ := bind_eq_ok.1 h
    rw [← Except.ok.inj hlast] at hends ⊢
    obtain ⟨hheadEnds, hreturnEnds⟩ := List.forall_mem_cons.1 hends
    have hnew : method.name ≠ "__init__" := by
      intro hinit
      rw [hinit] at hname
      exact absurd (hname '_' (by decide)) (by decide)
    have hheader :
        header? s!"def {method.name}({parameters m method.parameters}) -> {typeText m method.returns}:".toList =
          some (.method method.name) := by
      have hall : ∀ c ∈ method.name.toList, (c.isAlphanum || c = '_') = true := fun c hc => by
        rw [hname c hc, Bool.true_or]
      have hdef := header?_def hall ((parameters m method.parameters).toList ++ (") -> ".toList ++
        ((typeText m method.returns).toList ++ ":".toList)))
      rw [if_neg hnew] at hdef
      simpa [toString] using hdef
    have hhead := reads_line (c := 'd') hheadEnds (by simp [toString]) (by decide) (by decide) hheader
    have hfirst : ("return " ++ value).toList.head? = some 'r' := by simp
    have hindented : indent ["return " ++ value] = [indentUnit ++ "return " ++ value] := by
      rw [indent_of_head? hfirst (by decide), String.append_assoc]
    have hreturn : reading.Reads ["return " ++ value] [] := by
      refine reads_statement (fun hfeed => ?_) hfirst (by decide) (by decide)
      refine hreturnEnds _ List.mem_cons_self ?_
      simp only [toString, String.toList_append, List.mem_append] at hfeed ⊢
      tauto
    exact hindented ▸ hhead.block hreturn
  · cases h

end Members

/-! ## Classes -/

/-- The block below the header of a class. Its documentation and its constructors head nothing. -/
lemma reads_body {m : Model} (hnames : ∀ id, ∀ c ∈ (m.qualifiedName id).toList, Text.IsInLine c) {t : WrapperType}
    (ht : t.Plain) {methods : List (List String)} (hmethods : t.methods.mapM (methodLines m) = .ok methods)
    {inner : List TypeTree} {nested : List (List String)}
    (hnested : List.Forall₂ (fun tree block => reading.Reads block (tree.headings 0)) inner nested) :
    reading.Reads (Render.dropEmptyEnd (spaced ((if t.doc.isEmpty then [] else [docstring t.doc]) ++
      t.constructors.map (constructorLines m) ++ methods ++ nested)))
      (TypeTree.members t inner) := by
  unfold WrapperType.Plain WrapperType.names at ht
  obtain ⟨-, hmembers⟩ := List.forall_mem_cons.1 ht
  obtain ⟨hdata, hmethodNames⟩ := List.forall_mem_append.1 hmembers
  refine TypeTree.reads_members (fun block hblock => ?_) hmethods (fun method hmethod lines hlines => ?_) hnested
  · rcases List.mem_append.1 hblock with hblock | hblock
    · split at hblock
      · cases hblock
      · rw [List.mem_singleton.1 hblock]
        exact reads_docstring _
    · obtain ⟨c, hc, rfl⟩ := List.mem_map.1 hblock
      refine reads_constructorLines hnames fun name hin => ?_
      exact (List.forall_mem_append.1 hdata).2 name (List.mem_flatMap.2 ⟨c, hc, hin⟩)
  · exact reads_methodLines hnames hlines fun name hin =>
      hmethodNames name (List.mem_flatMap.2 ⟨method, hmethod, hin⟩)

mutual

/-- A class is headed by its name, and below that come its methods and the classes in it. -/
theorem reads_classLines {m : Model} (hnames : ∀ id, ∀ c ∈ (m.qualifiedName id).toList, Text.IsInLine c) :
    (tree : TypeTree) → (∀ t ∈ tree.types, t.Plain) → ∀ {lines : List String}, classLines m tree = .ok lines →
      reading.Reads lines (tree.headings 0)
  | .node id t inner, hplain, lines, h => by
    obtain ⟨ht, hinner⟩ := List.forall_mem_cons.1 hplain
    unfold classLines at h
    obtain ⟨methods, hmethods, h⟩ := bind_eq_ok.1 h
    obtain ⟨nested, hnested, hlast⟩ := bind_eq_ok.1 h
    have hname := ht t.name List.mem_cons_self
    have hhead : reading.Reads [s!"class {t.name}:"] [⟨0, .type t.name⟩] := by
      have hheader : header? s!"class {t.name}:".toList = some (.type t.name) := by
        have hclass := header?_class hname []
        simpa [toString] using hclass
      refine reads_line (c := 'c') ?_ (by simp [toString]) (by decide) (by decide) hheader
      simp only [toString, String.toList_append, List.mem_append, not_or]
      exact ⟨⟨by decide, fun hfeed => (isInLine_of_isAlphanum (hname _ hfeed)).1 rfl⟩, by decide⟩
    have hbody := reads_body hnames ht hmethods (reads_classesLines hnames inner hinner hnested)
    have hpass : reading.Reads ["pass"] [] := reads_statement (c := 'p') (by decide) rfl (by decide) (by decide)
    dsimp only at hlast
    generalize Render.dropEmptyEnd (spaced _) = body at hbody hlast
    rw [← Except.ok.inj hlast, TypeTree.headings_node]
    by_cases hempty : body.isEmpty = true
    · rw [if_pos hempty]
      rw [List.isEmpty_iff.1 hempty] at hbody
      rw [hbody.eq_nil]
      exact hhead.block hpass
    · rw [if_neg hempty]
      exact hhead.block hbody

theorem reads_classesLines {m : Model} (hnames : ∀ id, ∀ c ∈ (m.qualifiedName id).toList, Text.IsInLine c) :
    (trees : List TypeTree) → (∀ t ∈ TypeTree.allTypes trees, t.Plain) → ∀ {blocks : List (List String)},
      classesLines m trees = .ok blocks →
      List.Forall₂ (fun tree block => reading.Reads block (tree.headings 0)) trees blocks
  | [], _, blocks, h => by
    rw [← Except.ok.inj h]
    exact .nil
  | tree :: rest, hplain, blocks, h => by
    obtain ⟨hfirst, hrest⟩ := List.forall_mem_append.1 hplain
    unfold classesLines at h
    obtain ⟨lines, hlines, h⟩ := bind_eq_ok.1 h
    obtain ⟨others, hothers, hlast⟩ := bind_eq_ok.1 h
    rw [← Except.ok.inj hlast]
    exact .cons (reads_classLines hnames tree hfirst hlines) (reads_classesLines hnames rest hrest hothers)

end

/-! ## Modules -/

variable {m : Model}

/-- What stands in front of the classes heads nothing. -/
lemma reads_preambleLines {comment : String} (hends : '\n' ∉ comment.toList)
    (hmark : comment = "" ∨ comment.toList.head? = some '#') : reading.Reads (preambleLines comment) [] := by
  have himports : reading.Reads ["from __future__ import annotations", "", "from typing import Any"] [] := by
    have hfuture : reading.Reads ["from __future__ import annotations"] [] :=
      reads_statement (c := 'f') (by decide) rfl (by decide) (by decide)
    have htyping : reading.Reads ["from typing import Any"] [] :=
      reads_statement (c := 'f') (by decide) rfl (by decide) (by decide)
    exact (hfuture.append .emptyLine).append htyping
  unfold preambleLines
  split
  · exact himports
  · next hne =>
    have hfirst := hmark.resolve_left (by simpa using hne)
    have hcomment : reading.Reads [comment] [] := reads_statement hends hfirst (by decide) (by decide)
    exact hcomment.append himports

/-- The module of a model with one namespace has the outline of its types, if the comment is one of a single line and
names are letters and digits. -/
theorem outline?_of_sources {comment namespaceName : String} {files : Sources} (hends : '\n' ∉ comment.toList)
    (hmark : comment = "" ∨ comment.toList.head? = some '#') (hplain : ∀ t ∈ m.types, t.Plain)
    (hnamespaces : m.namespaces = [namespaceName]) (h : sources m comment = .ok files) :
    ∃ path text, files = [(path, text)] ∧
      reading.outline? text = some ((m.trees 0).map (TypeTree.outline 0)) := by
  unfold sources at h
  rw [hnamespaces, List.zipIdx_singleton, List.foldlM_cons] at h
  obtain ⟨sources, hmodule, hlast⟩ := bind_eq_ok.1 h
  obtain ⟨classes, hclasses, hput⟩ := bind_eq_ok.1 hmodule
  obtain rfl : sources = files := by simpa [pure, Except.pure] using hlast
  refine ⟨_, _, (Except.ok.inj hput).symm, ?_⟩
  have hblocks := reads_classesLines (isInLine_qualifiedName hplain) (m.trees 0)
    (fun t ht => hplain t (m.types_treesFrom _ _ ht)) hclasses
  have hreads : reading.Reads (preambleLines comment ++ classes.flatMap fun block => ["", ""] ++ block ++ [])
      (TypeTree.allHeadings 0 (m.trees 0)) := by
    rw [TypeTree.allHeadings_eq_flatMap]
    exact (reads_preambleLines hends hmark).append (.flatMap (Reading.Reads.emptyLine.append .emptyLine) .none hblocks)
  rw [Reading.outline?, hreads.headings?_eq, Option.map_some, TypeTree.ofHeadings_allHeadings]
  rw [closed_append, closed_preambleLines, String.toList_append]
  congr 1
  split
  · next hnone =>
    rw [List.isEmpty_iff.1 hnone]
    rfl
  · next hsome =>
    exact (closed_flatMap_unlines (ne_nil_of_classesLines hclasses) (by simpa using hsome)).symm

end SchemaAccessors.Render.Python
