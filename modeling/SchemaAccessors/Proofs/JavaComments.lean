import SchemaAccessors.Proofs.CommentText
import SchemaAccessors.Proofs.JavaFiles
import SchemaAccessors.Proofs.LongStrings

/-!
# Documentation comments in Java files

The documentation of a type stands in front of its class, line by line behind asterisks, and indented as deep as the
class. Java takes it for one comment. This file says that the comment ends with its last line, unless the URI that the
documentation names has unicode escapes in it that Java translates to the end of a comment, or cannot translate.
-/

namespace SchemaAccessors

namespace Render.Java

open Comment (StaysOpen EndsAtLast)
open Python (dropEmptyEnd_append iterate_indent margin toList_iterate_indentLine)

/-! ## Lines of documentation -/

lemma not_isSpecial_of_isBlank {c : Char} (h : Text.isBlank c = true) : ¬ IsSpecial c ∧ c ≠ '/' := by
  constructor
  · intro hspecial
    have hall : ∀ d ∈ ['&', '<', '>', '*'], Text.isBlank d = false := by decide
    rw [hall c hspecial] at h
    cases h
  · rintro rfl
    exact absurd h (by decide)

/-- A line end separates what is escaped in front of it from what is escaped behind. -/
lemma staysOpen_escapeDoc_append_cons {c : Char} (hc : Text.isBlank c = true) (text rest : List Char) :
    StaysOpen (escapeDoc (text ++ c :: rest)) ↔ StaysOpen (escapeDoc text) ∧ StaysOpen (escapeDoc rest) := by
  obtain ⟨hspecial, hstroke⟩ := not_isSpecial_of_isBlank hc
  rw [escapeDoc_append_cons hspecial hstroke, Comment.staysOpen_append_cons hc]

lemma staysOpen_linesFrom (line text : List Char) :
    (∀ l ∈ Text.linesFrom line text, StaysOpen (escapeDoc l)) ↔ StaysOpen (escapeDoc (line.reverse ++ text)) := by
  fun_induction Text.linesFrom line text with
  | case1 line h =>
    obtain rfl : line = [] := by simpa using h
    simp [escapeDoc, Comment.staysOpen_nil]
  | case2 line h => simp
  | case3 line rest ih =>
    have hfeed : '\n' :: rest = [] ++ '\n' :: rest := rfl
    rw [List.forall_mem_cons, ih, staysOpen_escapeDoc_append_cons (by decide), hfeed,
      staysOpen_escapeDoc_append_cons (by decide), escapeDoc, and_iff_right Comment.staysOpen_nil, List.reverse_nil,
      List.nil_append]
  | case4 line d rest _ hd ih =>
    rw [List.forall_mem_cons, ih, staysOpen_escapeDoc_append_cons (Text.isBlank_of_isLineEnd hd), List.reverse_nil,
      List.nil_append]
  | case5 line d rest _ hd ih => rw [ih, List.reverse_cons, List.append_assoc, List.singleton_append]

lemma toList_docLine (line : String) :
    (docLine line).toList = ((" * ".toList ++ escapeDoc line.toList).reverse.dropWhile Text.isBlank).reverse := by
  rw [docLine, Text.trimRight, String.toList_ofList, String.toList_append,
    String.toList_ofList (l := escapeDoc line.toList)]

/-- A line of a comment ends it exactly if the line of documentation would. -/
lemma staysOpen_docLine (line : String) : StaysOpen (docLine line).toList ↔ StaysOpen (escapeDoc line.toList) := by
  set text := " * ".toList ++ escapeDoc line.toList with htext
  have hsplit : text = (docLine line).toList ++ (text.reverse.takeWhile Text.isBlank).reverse := by
    rw [toList_docLine, ← List.reverse_append, List.takeWhile_append_dropWhile, List.reverse_reverse]
  have hblanks : ∀ c ∈ (text.reverse.takeWhile Text.isBlank).reverse, Text.isBlank c = true :=
    fun c hc => List.mem_takeWhile_imp (List.mem_reverse.1 hc)
  have hmark : text = [] ++ ' ' :: (['*'] ++ ' ' :: escapeDoc line.toList) := htext
  have hstar : StaysOpen ['*'] := ⟨[0x2a], rfl, by decide⟩
  rw [← Comment.staysOpen_append_blanks hblanks, ← hsplit, hmark, Comment.staysOpen_append_cons (by decide),
    Comment.staysOpen_append_cons (by decide), and_iff_right Comment.staysOpen_nil, and_iff_right hstar]

lemma staysOpen_docLines (text : List Char) :
    (∀ line ∈ (Text.lines (String.ofList text)).map docLine, StaysOpen line.toList) ↔ StaysOpen (escapeDoc text) := by
  have hlines := staysOpen_linesFrom [] text
  rw [List.reverse_nil, List.nil_append] at hlines
  simp only [← hlines, Text.lines, String.toList_ofList, List.map_map, List.forall_mem_map, Function.comp_apply,
    staysOpen_docLine]

/-- The schema is cut off at the end of a line. -/
lemma cutSchema_eq (text : List Char) : text = (cutSchema text).1 ++ '\n' :: (cutSchema text).2 ∨
    (cutSchema text).1 = text ∧ (cutSchema text).2 = [] := by
  fun_induction cutSchema text with
  | case1 rest => exact .inl rfl
  | case2 c rest _ before schema hcut ih =>
    rw [hcut] at ih
    exact ih.imp (congrArg (c :: ·)) (And.imp_left (congrArg (c :: ·)))
  | case3 => exact .inr ⟨rfl, rfl⟩

lemma staysOpen_cutSchema (text : List Char) :
    StaysOpen (escapeDoc (cutSchema text).1) ∧ StaysOpen (escapeDoc (cutSchema text).2) ↔
      StaysOpen (escapeDoc text) := by
  rcases cutSchema_eq text with hsplit | ⟨hbefore, hschema⟩
  · rw [← staysOpen_escapeDoc_append_cons (c := '\n') (by decide), ← hsplit]
  · rw [hbefore, hschema, escapeDoc, and_iff_left Comment.staysOpen_nil]

/-- Between its first and its last line, a comment has lines that end it exactly if the documentation would. -/
lemma exists_docComment (doc : String) : ∃ lines, docComment doc = ["/**"] ++ lines ++ [" */"] ∧
    ((∀ line ∈ lines, StaysOpen line.toList) ↔ StaysOpen (escapeDoc doc.toList)) := by
  have hbefore : StaysOpen " * <pre>".toList := ⟨_, rfl, by decide⟩
  have hbehind : StaysOpen " * </pre>".toList := ⟨_, rfl, by decide⟩
  have hfirst := (cutSchema_spec doc.toList).2.2
  rw [← staysOpen_cutSchema, docComment]
  generalize cutSchema doc.toList = parts at hfirst
  obtain ⟨text, schema⟩ := parts
  dsimp only at hfirst ⊢
  split
  · next hshort =>
    -- what is dropped is nothing, or one brace
    have hschema : StaysOpen (escapeDoc schema) := by
      rcases hfirst with rfl | ⟨rest, rfl⟩
      · exact Comment.staysOpen_nil
      · obtain rfl : rest = [] := by simpa using hshort
        exact ⟨_, rfl, by decide⟩
    exact ⟨_, by rw [List.append_nil], by rw [staysOpen_docLines, and_iff_left hschema]⟩
  · refine ⟨_, by rw [List.append_assoc ["/**"]], ?_⟩
    simp only [List.forall_mem_append, List.forall_mem_singleton, staysOpen_docLines, hbefore, hbehind, true_and,
      and_true]

/-! ## Indentation -/

lemma staysOpen_indentLine (line : String) : StaysOpen (indentLine line).toList ↔ StaysOpen line.toList := by
  unfold indentLine
  split
  · next hblank =>
    rw [isBlankLine_eq, List.all_eq_true] at hblank
    have hline := Comment.staysOpen_blanks_append hblank []
    rw [List.append_nil] at hline
    exact hline.symm
  · rw [String.toList_append]
    exact Comment.staysOpen_blanks_append (by decide) _

lemma staysOpen_iterate_indent (k : Nat) (lines : List String) :
    (∀ line ∈ indent^[k] lines, StaysOpen line.toList) ↔ ∀ line ∈ lines, StaysOpen line.toList := by
  induction k generalizing lines with
  | zero => rfl
  | succ k ih => simp only [Function.iterate_succ_apply, ih, indent, List.forall_mem_map, staysOpen_indentLine]

lemma staysOpen_closed (lines : List String) :
    StaysOpen (closed lines) ↔ ∀ line ∈ lines, StaysOpen line.toList := by
  induction lines with
  | nil => simp [closed, Comment.staysOpen_nil]
  | cons line lines ih =>
    have hsplit : closed (line :: lines) = line.toList ++ '\n' :: closed lines := by simp [closed]
    rw [hsplit, Comment.staysOpen_append_cons (by decide), ih, List.forall_mem_cons]

/-- An indented comment, where it stands in a file. -/
lemma toList_unlines_comment (k : Nat) (lines : List String) :
    (unlines (indent^[k] (["/**"] ++ lines ++ [" */"]))).toList =
      margin k ++ ['/', '*'] ++ (['*'] ++ '\n' :: (closed (indent^[k] lines) ++ margin k)) ++ [' ', '*', '/'] := by
  have hfirst : closed [indentLine^[k] "/**"] = margin k ++ "/**".toList ++ ['\n'] := by
    rw [closed, List.flatMap_singleton, toList_iterate_indentLine (c := '*') (by decide) (by decide)]
  have hlast : closed [indentLine^[k] " */"] = margin k ++ " */".toList ++ ['\n'] := by
    rw [closed, List.flatMap_singleton, toList_iterate_indentLine (c := '*') (by decide) (by decide)]
  have hindented : indent^[k] (["/**"] ++ lines ++ [" */"]) =
      [indentLine^[k] "/**"] ++ indent^[k] lines ++ [indentLine^[k] " */"] := by
    simp only [iterate_indent, List.map_append, List.map_singleton]
  have hclosed : _ = (unlines (indent^[k] (["/**"] ++ lines ++ [" */"]))).toList ++ ['\n'] :=
    closed_unlines (by rw [hindented]; simp)
  rw [hindented, closed_append, closed_append, hfirst, hlast, ← hindented] at hclosed
  apply List.append_cancel_right (hclosed.symm.trans _)
  simp

/-- The lines of a comment for a part of the documentation, with their ends. -/
def docChars (text : List Char) : List Char :=
  (Text.linesFrom [] text).flatMap fun line =>
    ((" * ".toList ++ escapeDoc line).reverse.dropWhile Text.isBlank).reverse ++ ['\n']

lemma closed_docLines (text : List Char) :
    closed ((Text.lines (String.ofList text)).map docLine) = docChars text := by
  simp only [closed, docChars, Text.lines, List.map_map, List.flatMap_map, Function.comp_apply, toList_docLine,
    String.toList_ofList]

/-- A comment for documentation that has a schema, character by character. -/
lemma toList_unlines_docComment (doc : String) (hschema : 1 < (cutSchema doc.toList).2.length) :
    (unlines (docComment doc)).toList = "/**\n".toList ++ docChars (cutSchema doc.toList).1 ++ " * <pre>\n".toList ++
      docChars (cutSchema doc.toList).2 ++ " * </pre>\n */".toList := by
  set lines := (Text.lines (String.ofList (cutSchema doc.toList).1)).map docLine ++ ([" * <pre>"] ++
    (Text.lines (String.ofList (cutSchema doc.toList).2)).map docLine ++ [" * </pre>"]) with hlines
  have hcomment : docComment doc = ["/**"] ++ lines ++ [" */"] := by
    rw [docComment]
    dsimp only
    rw [if_neg (Nat.not_le_of_gt hschema), List.append_assoc ["/**"]]
  have htext := toList_unlines_comment 0 lines
  rw [Function.iterate_zero, id, ← hcomment, id] at htext
  rw [htext, hlines, closed_append, closed_append, closed_append, closed_docLines, closed_docLines]
  simp [margin, closed]

/-! ## The end of a comment -/

/-- Lines around a block are translated without regard to it. -/
lemma translate_append_block (before block behind : List Char) :
    Escapes.translate .plain (before ++ '\n' :: (block ++ '\n' :: behind)) =
      (Escapes.translate .plain before).bind fun us₁ => (Escapes.translate .plain block).bind fun us =>
        (Escapes.translate .plain behind).map fun us₂ => us₁ ++ 0x0a :: (us ++ 0x0a :: us₂) := by
  rw [Escapes.translate_append_cons (by decide), Escapes.translate_append_cons (by decide)]
  cases Escapes.translate .plain block <;> simp [Function.comp_def]

lemma endsAtLast_iff_exists (block : List Char) :
    EndsAtLast block ↔
      ∃ us, Escapes.translate .plain block = some us ∧ ∀ us₂, Comment.behind? (us ++ us₂) = some us₂ := by
  refine exists_congr fun us => and_congr_left fun _ => ⟨fun h => ?_, fun h before behind => ?_⟩
  · have halone := h [] []
    rw [translate_append_block] at halone
    cases hblock : Escapes.translate .plain block with
    | none => simp [hblock, Escapes.translate] at halone
    | some us' => simpa [hblock, Escapes.translate] using halone
  · rw [translate_append_block, h]
    rfl

/-- A comment ends at its last line exactly if the text in it ends none. -/
lemma endsAtLast_iff {text : List Char} (k : Nat) :
    EndsAtLast (margin k ++ ['/', '*'] ++ text ++ [' ', '*', '/']) ↔ StaysOpen text := by
  have hopening : '\\' ∉ margin k ++ ['/', '*'] := by
    rw [List.mem_append, not_or]
    exact ⟨fun hmem => absurd (List.eq_of_mem_replicate hmem) (by decide), by decide⟩
  have hunits : (margin k ++ ['/', '*']).flatMap Python.Literal.units =
      List.replicate (k * indentUnit.length) 0x20 ++ [0x2f, 0x2a] := by
    rw [List.flatMap_append, margin, List.flatMap_replicate]
    simp [Python.Literal.units]
  have hblock : Escapes.translate .plain (margin k ++ ['/', '*'] ++ text ++ [' ', '*', '/']) =
      (Escapes.translate .plain text).map fun us =>
        List.replicate (k * indentUnit.length) 0x20 ++ 0x2f :: 0x2a :: (us ++ [0x20, 0x2a, 0x2f]) := by
    have hclosing : Escapes.translate .plain ['*', '/'] = some [0x2a, 0x2f] := rfl
    rw [List.append_assoc, Escapes.translate_plain hopening, Escapes.translate_append_cons (by decide), hunits,
      hclosing]
    cases Escapes.translate .plain text <;> simp
  have hbehind (us us₂ : List Nat) : Comment.behind? (List.replicate (k * indentUnit.length) 0x20 ++
      0x2f :: 0x2a :: (us ++ [0x20, 0x2a, 0x2f]) ++ us₂) = Comment.behindEnd (us ++ [0x20, 0x2a, 0x2f] ++ us₂) := by
    rw [Comment.behind?, List.append_assoc, List.dropWhile_append_of_pos (by simp)]
    rfl
  rw [endsAtLast_iff_exists, hblock]
  constructor
  · rintro ⟨us, hus, hends⟩
    obtain ⟨inner, hinner, rfl⟩ := Option.map_eq_some_iff.1 hus
    refine ⟨inner, hinner, (Comment.behindEnd_eq_iff inner []).1 ?_⟩
    rw [← hbehind, hends]
  · rintro ⟨inner, hinner, hopen⟩
    rw [hinner]
    refine ⟨_, rfl, fun us₂ => ?_⟩
    rw [hbehind, (Comment.behindEnd_eq_iff inner us₂).2 hopen]

/-- A documentation comment ends at its last line exactly if the documentation would not end it. -/
theorem endsAtLast_docComment (k : Nat) (doc : String) :
    EndsAtLast (unlines (indent^[k] (docComment doc))).toList ↔ StaysOpen (escapeDoc doc.toList) := by
  obtain ⟨lines, hcomment, hlines⟩ := exists_docComment doc
  have hstar : StaysOpen ['*'] := ⟨[0x2a], rfl, by decide⟩
  have hmargin : ∀ c ∈ margin k, Text.isBlank c = true := by
    intro c hc
    rw [List.eq_of_mem_replicate hc]
    decide
  rw [hcomment, toList_unlines_comment, endsAtLast_iff, Comment.staysOpen_append_cons (by decide),
    and_iff_right hstar, Comment.staysOpen_append_blanks hmargin, staysOpen_closed, staysOpen_iterate_indent, hlines]

/-! ## Comments in files -/

variable {m : Model}

/-- Lines hold the comment for some documentation, at some level. -/
def HoldsComment (lines : List String) (doc : String) : Prop :=
  ∃ k before behind, lines = before ++ indent^[k] (docComment doc) ++ behind

namespace HoldsComment

variable {lines : List String} {doc : String}

lemma append (h : HoldsComment lines doc) (start rest : List String) : HoldsComment (start ++ lines ++ rest) doc := by
  obtain ⟨k, before, behind, rfl⟩ := h
  exact ⟨k, start ++ before, behind ++ rest, by simp⟩

lemma indent (h : HoldsComment lines doc) : HoldsComment (Render.indent lines) doc := by
  obtain ⟨k, before, behind, rfl⟩ := h
  refine ⟨k + 1, Render.indent before, Render.indent behind, ?_⟩
  rw [Function.iterate_succ_apply']
  simp [Render.indent]

lemma spaced {blocks : List (List String)} (hblock : lines ∈ blocks) (h : HoldsComment lines doc) :
    HoldsComment (Render.spaced blocks) doc := by
  obtain ⟨start, rest, rfl⟩ := List.append_of_mem hblock
  have hsplit : Render.spaced (start ++ lines :: rest) =
      Render.spaced start ++ lines ++ ([""] ++ Render.spaced rest) := by
    simp [Render.spaced]
  rw [hsplit]
  exact h.append _ _

/-- A comment does not end with an empty line. -/
lemma dropEmptyEnd (h : HoldsComment lines doc) : HoldsComment (Render.dropEmptyEnd lines) doc := by
  obtain ⟨k, before, behind, rfl⟩ := h
  obtain ⟨text, hcomment, -⟩ := exists_docComment doc
  have hlast : indentLine^[k] " */" ≠ "" := by
    intro hempty
    have hline : (indentLine^[k] " */").toList = margin k ++ " */".toList :=
      toList_iterate_indentLine (c := '*') (by decide) (by decide) k
    simp [hempty] at hline
  have hindented : Render.indent^[k] (docComment doc) =
      Render.indent^[k] (["/**"] ++ text) ++ [indentLine^[k] " */"] := by
    rw [hcomment, iterate_indent, List.map_append, List.map_singleton, iterate_indent]
  have hkept := dropEmptyEnd_append hlast (before ++ Render.indent^[k] (["/**"] ++ text)) behind
  refine ⟨k, before, Render.dropEmptyEnd behind, ?_⟩
  rw [hindented]
  simpa only [List.append_assoc, List.singleton_append] using hkept

end HoldsComment

mutual

/-- The lines of a class hold the documentation of all types in its tree. -/
lemma holdsComment_of_classLines : (tree : TypeTree) → ∀ {lines : List String}, classLines m tree = .ok lines →
    ∀ t ∈ tree.types, t.doc ≠ "" → HoldsComment lines t.doc
  | .node id t inner, lines, h => by
    unfold classLines at h
    obtain ⟨methods, -, h⟩ := bind_eq_ok.1 h
    obtain ⟨nested, hnested, hlast⟩ := bind_eq_ok.1 h
    intro u hu hdoc
    rw [← Except.ok.inj hlast]
    rcases List.mem_cons.1 hu with rfl | hu
    · rw [if_neg (by simpa using hdoc), List.append_assoc, List.append_assoc]
      exact ⟨0, [], _, rfl⟩
    · obtain ⟨block, hblock, hholds⟩ := holdsComment_of_classesLines inner hnested u hu hdoc
      exact ((hholds.spaced (List.mem_append_right _ hblock)).dropEmptyEnd.indent).append _ _

lemma holdsComment_of_classesLines : (trees : List TypeTree) → ∀ {blocks : List (List String)},
    classesLines m trees = .ok blocks →
      ∀ t ∈ TypeTree.allTypes trees, t.doc ≠ "" → ∃ block ∈ blocks, HoldsComment block t.doc
  | [], _, _, t, ht, _ => (List.not_mem_nil ht).elim
  | tree :: rest, blocks, h, t, ht, hdoc => by
    unfold classesLines at h
    obtain ⟨lines, hlines, h⟩ := bind_eq_ok.1 h
    obtain ⟨others, hothers, hlast⟩ := bind_eq_ok.1 h
    rw [← Except.ok.inj hlast]
    rcases List.mem_append.1 ht with ht | ht
    · exact ⟨lines, List.mem_cons_self, holdsComment_of_classLines tree hlines t ht hdoc⟩
    · obtain ⟨block, hblock, hholds⟩ := holdsComment_of_classesLines rest hothers t ht hdoc
      exact ⟨block, List.mem_cons_of_mem _ hblock, hholds⟩

end

/-- A text has a block in it, on lines of its own. -/
def HasLines (text block : List Char) : Prop :=
  ∃ before behind, text = before ++ '\n' :: (block ++ '\n' :: behind)

/-- A comment that lines hold stands in their file. -/
lemma HoldsComment.hasLines {lines : List String} {doc : String} (h : HoldsComment lines doc)
    (comment package : String) :
    ∃ k, HasLines (fileText comment package lines).toList (unlines (Render.indent^[k] (docComment doc))).toList := by
  obtain ⟨k, before, behind, rfl⟩ := h
  set block := Render.indent^[k] (docComment doc) with hblock
  have hne : block ≠ [] := by
    obtain ⟨text, hcomment, -⟩ := exists_docComment doc
    rw [hblock, hcomment, iterate_indent]
    simp
  have hfront : ∃ start, '\n' :: closed before = start ++ ['\n'] := by
    by_cases hnone : before = []
    · exact ⟨[], by rw [hnone]; rfl⟩
    · exact ⟨'\n' :: (unlines before).toList, by rw [closed_unlines hnone]; rfl⟩
  obtain ⟨start, hstart⟩ := hfront
  have hlines : closed before ++ closed block ++ closed behind =
      (unlines (before ++ block ++ behind)).toList ++ ['\n'] := by
    rw [← closed_append, ← closed_append, closed_unlines (by simp [hne])]
  have hfile : (fileText comment package (before ++ block ++ behind)).toList =
      (preamble comment package).toList ++ ('\n' :: closed before) ++ closed block ++ closed behind := by
    have hends : "\n".toList = ['\n'] := rfl
    rw [fileText, String.toList_append, String.toList_append, String.toList_append, hends,
      List.append_assoc _ _ ['\n'], ← hlines]
    simp
  refine ⟨k, (preamble comment package).toList ++ start, closed behind, ?_⟩
  rw [hfile, hstart, closed_unlines hne, ← hblock]
  simp

end Render.Java

namespace Generation

open Render.Java (docComment escapeDoc HasLines)
open Render.Java.Comment (StaysOpen EndsAtLast)

section Sources

variable {g : Generation} {name : String} {root : SchemaNode} {d d' : Drafting} {files : Render.Sources}

/-- Where a generation for Java succeeds, the documentation of each type stands in a file as a comment. To Java, this
comment ends with its last line, exactly if the URI that it names can be translated and has no end of a comment in it
then. -/
theorem comments_of_sources (hstore : d.store.Genuine) (hroot : root ∈ d.store.nodes)
    (hok : outcome (g.sources .java name root) d = (.ok files, d')) :
    ∃ s : Setting, ∀ t ∈ d'.model.types, ∃ n ∈ d'.store.nodes, t.doc = Drafting.documentation s n ∧
      ∃ file ∈ files, ∃ k, HasLines file.2.toList (Render.unlines (Render.indent^[k] (docComment t.doc))).toList ∧
        (EndsAtLast (Render.unlines (Render.indent^[k] (docComment t.doc))).toList ↔
          StaysOpen (escapeDoc n.uri.toList)) ∧
        ('\\' ∉ n.uri.toList → EndsAtLast (Render.unlines (Render.indent^[k] (docComment t.doc))).toList) := by
  obtain ⟨s, -, -, -, htold, -⟩ := told_of_sources hstore hroot hok
  refine ⟨s, fun t ht => ?_⟩
  obtain ⟨n, hn, hdoc⟩ := (htold t ht).documented
  have hsome : t.doc ≠ "" := by
    obtain ⟨printed, -, htext⟩ := Render.Java.exists_documentation s n
    intro hempty
    simp [← hdoc, hempty] at htext
  obtain ⟨file, hfile, hshows⟩ := exists_file_of_types (P := fun t text => t.doc ≠ "" →
      ∃ k, HasLines text.toList (Render.unlines (Render.indent^[k] (docComment t.doc))).toList) hstore hroot hok
    (fun tree lines hlines comment package t ht hdoc =>
      (Render.Java.holdsComment_of_classLines tree hlines t ht hdoc).hasLines comment package) t ht
  obtain ⟨k, hlines⟩ := hshows hsome
  have hends : EndsAtLast (Render.unlines (Render.indent^[k] (docComment t.doc))).toList ↔
      StaysOpen (escapeDoc n.uri.toList) := by
    rw [Render.Java.endsAtLast_docComment, hdoc, Render.Java.staysOpen_documentation]
  refine ⟨n, hn, hdoc, file, hfile, k, hlines, hends, fun hplain => hends.2 ?_⟩
  exact (Render.Java.Overt.of_notMem hplain).staysOpen

end Sources

/-! ### A schema with ends of comments in it -/

namespace Commented

/-- The description shows the end of a comment, as it is and with an escape. -/
def members : Members :=
  [("type", .str "object"), ("description", .str "*/ \\u002a/"),
    ("properties", .obj [("n", .obj [("type", .str "string")])])]

def store (uri : String) : Store :=
  ⟨[⟨uri, survey (.root uri) (.obj members)⟩]⟩

def root (uri : String) : SchemaNode :=
  .root ⟨uri, [], uri, uri, members⟩

def generation : Generation :=
  ⟨⟨[], ⟨[]⟩, .top⟩, {}, programName⟩

def begun (uri : String) : Drafting :=
  .start (store uri) (.empty [] [])

def last (uri : String) : Drafting :=
  (outcome (generation.sources .java "schema" (root uri)) (begun uri)).2

lemma genuine (uri : String) : (begun uri).store.Genuine := fun load hl =>
  ⟨members, by rw [List.mem_singleton.1 hl]⟩

lemma root_mem (uri : String) : root uri ∈ (begun uri).store.nodes :=
  Store.mem_nodes.2 ⟨_, List.mem_singleton_self _,
    node_mem_survey (show (Position.root uri).enter members = .ok (root uri, [(uri, [])]) from rfl)⟩

/-- The documentation of the schema under a URI that has an escape in it. -/
def written : List String :=
  ["Created from a\\u002a/Schema", "Explicit types ['object']", "Inferred types ['object']", "\x7b",
    "  \"type\": \"object\",", "  \"description\": \"*/ \\\\u002a/\",", "  \"properties\": \x7b", "    \"n\": \x7b",
    "      \"type\": \"string\"", "    \x7d", "  \x7d", "\x7d"]

lemma toList_written : (Render.unlines written).toList = (Render.closed written).dropLast := by
  rw [Render.closed_unlines (by decide), List.dropLast_concat]

end Commented

/-- Printed between the lines of a comment, the ends of comments in a schema end none. -/
theorem comments_of_description :
    ∃ files, outcome (Commented.generation.sources .java "schema" (Commented.root "s.json"))
        (Commented.begun "s.json") = (.ok files, Commented.last "s.json") ∧ files.length = 1 ∧
      (Commented.last "s.json").model.types.length = 1 ∧
      ∀ t ∈ (Commented.last "s.json").model.types, ∃ file ∈ files, ∃ k,
        HasLines file.2.toList (Render.unlines (Render.indent^[k] (docComment t.doc))).toList ∧
          EndsAtLast (Render.unlines (Render.indent^[k] (docComment t.doc))).toList := by
  obtain ⟨files, hok, hlength⟩ : ∃ files,
      outcome (Commented.generation.sources .java "schema" (Commented.root "s.json")) (Commented.begun "s.json") =
        (.ok files, Commented.last "s.json") ∧ files.length = 1 :=
    exists_of_map_toOption (by decide +kernel)
  have huris : ∀ n ∈ (Commented.last "s.json").store.nodes, '\\' ∉ n.uri.toList := by decide +kernel
  obtain ⟨s, hcomments⟩ := comments_of_sources (Commented.genuine _) (Commented.root_mem _) hok
  refine ⟨files, hok, hlength, by decide +kernel, fun t ht => ?_⟩
  obtain ⟨n, hn, -, file, hfile, k, hlines, -, hends⟩ := hcomments t ht
  exact ⟨file, hfile, k, hlines, hends (huris n hn)⟩

/-- A URI with an escape in it ends the comment that names it, in front of the rest of the URI. -/
theorem ended_early :
    (∃ files, outcome (Commented.generation.sources .java "schema" (Commented.root "a\\u002a/Schema"))
        (Commented.begun "a\\u002a/Schema") = (.ok files, Commented.last "a\\u002a/Schema") ∧ files.length = 1) ∧
      ∃ t, (Commented.last "a\\u002a/Schema").model.types = [t] ∧
        ¬ EndsAtLast (Render.unlines (docComment t.doc)).toList ∧
        ∃ us rest, Render.Java.Escapes.translate .plain (Render.unlines (docComment t.doc)).toList = some us ∧
          Render.Java.Comment.behind? us = some ("Schema".toList.map Char.toNat ++ rest) := by
  refine ⟨exists_of_map_toOption (by decide +kernel), ?_⟩
  have hdocs : (Commented.last "a\\u002a/Schema").model.types.map (·.doc) = [Render.unlines Commented.written] := by
    decide +kernel
  obtain ⟨t, htypes, hdoc⟩ := List.map_eq_singleton_iff.1 hdocs
  have hopen : ¬ StaysOpen (escapeDoc (Render.unlines Commented.written).toList) := by
    rw [Commented.toList_written]
    decide +kernel
  have hschema : 1 < (Render.Java.cutSchema (Render.unlines Commented.written).toList).2.length := by
    rw [Commented.toList_written]
    decide +kernel
  have hbehind : ((Render.Java.Escapes.translate .plain (Render.unlines (docComment t.doc)).toList).bind
      Render.Java.Comment.behind?).map (·.take 6) = some ("Schema".toList.map Char.toNat) := by
    rw [hdoc, Render.Java.toList_unlines_docComment _ hschema, Commented.toList_written]
    decide +kernel
  obtain ⟨found, hfound, htake⟩ := Option.map_eq_some_iff.1 hbehind
  obtain ⟨us, hus, hrest⟩ := Option.bind_eq_some_iff.1 hfound
  have hearly := mt (Render.Java.endsAtLast_docComment 0 t.doc).1 (hdoc ▸ hopen)
  refine ⟨t, htypes, hearly, us, found.drop 6, hus, ?_⟩
  rw [hrest, ← htake, List.take_append_drop]

end Generation

end SchemaAccessors
