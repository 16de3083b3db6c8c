import Mathlib.Data.List.Forall2
import SchemaAccessors.Proofs.Indentation
import SchemaAccessors.Proofs.Outcome

/-!
# Outlines of code

Code is read by its indentation. A reader goes through the lines from the top, passes over documentation, and notes
which lines head a type or a method and how many blanks are in front of them; what is headed deeper than the heading
before it lies inside that. What a language asks for is which lines open and close documentation and what a heading
looks like (`Reading`). The lines of a block are read by themselves (`Reads`): blocks behind one another head what
each of them heads, and indenting a block moves its headings, so the headings of a class can be read off those of its
members.
-/

namespace SchemaAccessors

namespace Text

/-- A text without the blanks at both of its ends. -/
def strip (text : List Char) : List Char :=
  ((text.dropWhile isBlank).reverse.dropWhile isBlank).reverse

/-- Only blanks are stripped. -/
lemma exists_of_strip (text : List Char) :
    ∃ before after, text = before ++ strip text ++ after ∧ ∀ c ∈ before, isBlank c = true := by
  refine ⟨text.takeWhile isBlank, ((text.dropWhile isBlank).reverse.takeWhile isBlank).reverse, ?_,
    fun c hc => List.mem_takeWhile_imp hc⟩
  rw [strip, List.append_assoc, ← List.reverse_append, List.takeWhile_append_dropWhile, List.reverse_reverse,
    List.takeWhile_append_dropWhile]

lemma strip_of_blank {text : List Char} (h : ∀ c ∈ text, isBlank c = true) : strip text = [] := by
  rw [strip, List.dropWhile_eq_nil_iff.2 h]
  rfl

/-- Stripping keeps the first character that shows. -/
lemma head?_strip {c : Char} {text : List Char} (hfirst : text.head? = some c) (hshown : isBlank c = false) :
    (strip text).head? = some c := by
  obtain ⟨rest, rfl⟩ := List.head?_eq_some_iff.1 hfirst
  rw [strip, List.dropWhile_cons_of_neg (by simp [hshown]), List.reverse_cons, List.dropWhile_append]
  split
  · rw [List.dropWhile_cons_of_neg (by simp [hshown])]
    rfl
  · rw [List.reverse_append]
    rfl

end Text

/-! ## Headings -/

/-- What a line can be the head of. -/
inductive Header
  | type (name : String)
  | method (name : String)
deriving DecidableEq, Repr

/-- A header, and how many blanks stand in front of it. -/
structure Heading where
  depth : Nat
  header : Header
deriving DecidableEq, Repr

namespace Heading

/-- A heading one level deeper. -/
def deeper (h : Heading) : Heading :=
  { h with depth := h.depth + 4 }

end Heading

/-- How lines of a language are read, without the blanks they begin with: which of them open documentation and which
close it, and what they are headers of. A line that shows nothing is none of this. -/
structure Reading where
  opens : List Char → Bool
  closes : List Char → Bool
  header? : List Char → Option Header
  blank : ∀ text, text.all Text.isBlank = true → opens text = false ∧ closes text = false ∧ header? text = none

namespace Render

/-- A line without the blanks that it begins with. -/
def code (line : String) : List Char :=
  line.toList.dropWhile (· = ' ')

lemma code_of_head? {line : String} {c : Char} (hfirst : line.toList.head? = some c) (hshown : Text.isBlank c = false) :
    code line = line.toList := by
  obtain ⟨rest, hline⟩ := List.head?_eq_some_iff.1 hfirst
  have hblank : c ≠ ' ' := by
    rintro rfl
    exact absurd hshown (by decide)
  rw [code, hline, List.dropWhile_cons_of_neg (by simpa using hblank)]

lemma depth_of_head? {line : String} {c : Char} (hfirst : line.toList.head? = some c)
    (hshown : Text.isBlank c = false) : depth line = 0 := by
  obtain ⟨rest, hline⟩ := List.head?_eq_some_iff.1 hfirst
  have hblank : c ≠ ' ' := by
    rintro rfl
    exact absurd hshown (by decide)
  rw [depth, hline, List.takeWhile_cons_of_neg (by simpa using hblank), List.length_nil]

lemma isBlank_of_code {line : String} (h : Text.isBlankLine line = true) :
    (code line).all Text.isBlank = true := by
  rw [isBlankLine_eq] at h
  rw [List.all_eq_true] at h ⊢
  exact fun c hc => h c (List.dropWhile_subset _ hc)

end Render

namespace Reading

open Render (code depth indent indentLine)

/-- What a line heads, and where. -/
def heading? (r : Reading) (line : String) : Option Heading :=
  (r.header? (code line)).map (Heading.mk (depth line))

/-- Goes through some lines. The result is whether documentation is open behind them, and the headings among them. -/
def walk (r : Reading) : (inDoc : Bool) → List String → Bool × List Heading
  | inDoc, [] => (inDoc, [])
  | true, line :: rest => r.walk (!r.closes (code line)) rest
  | false, line :: rest =>
    if r.opens (code line) then r.walk true rest
    else
      let (inDoc, found) := r.walk false rest
      (inDoc, (r.heading? line).toList ++ found)

variable {r : Reading} {inDoc : Bool}

lemma walk_append (a b : List String) :
    r.walk inDoc (a ++ b) =
      ((r.walk (r.walk inDoc a).1 b).1, (r.walk inDoc a).2 ++ (r.walk (r.walk inDoc a).1 b).2) := by
  induction a generalizing inDoc with
  | nil => cases inDoc <;> rfl
  | cons line a ih =>
    cases inDoc with
    | true => exact ih
    | false =>
      rw [List.cons_append, walk, walk]
      by_cases hopens : r.opens (code line) = true
      · rw [if_pos hopens, if_pos hopens, ih]
      · rw [if_neg hopens, if_neg hopens, ih]
        dsimp only
        rw [List.append_assoc]

/-- Indenting some lines moves their headings. -/
lemma walk_indent (lines : List String) :
    r.walk inDoc (indent lines) = ((r.walk inDoc lines).1, (r.walk inDoc lines).2.map Heading.deeper) := by
  have hline (line : String) : r.opens (code (indentLine line)) = r.opens (code line) ∧
      r.closes (code (indentLine line)) = r.closes (code line) ∧
      r.heading? (indentLine line) = (r.heading? line).map Heading.deeper := by
    unfold indentLine heading?
    split
    · next hblank =>
      obtain ⟨hopens, hcloses, hheader⟩ := r.blank _ (Render.isBlank_of_code hblank)
      obtain ⟨hopens', hcloses', hheader'⟩ := r.blank (code "") rfl
      rw [hopens, hcloses, hheader, hopens', hcloses', hheader']
      exact ⟨rfl, rfl, rfl⟩
    · have hcode : code (Render.indentUnit ++ line) = code line := by
        unfold code
        rw [String.toList_append]
        rfl
      have hdepth : depth (Render.indentUnit ++ line) = depth line + 4 := by
        unfold depth
        rw [String.toList_append]
        rfl
      rw [hcode, hdepth, Option.map_map]
      exact ⟨rfl, rfl, rfl⟩
  induction lines generalizing inDoc with
  | nil => cases inDoc <;> rfl
  | cons line lines ih =>
    obtain ⟨hopens, hcloses, hheading⟩ := hline line
    show r.walk inDoc (indentLine line :: indent lines) = _
    cases inDoc with
    | true => rw [walk, walk, hcloses, ih]
    | false =>
      rw [walk, walk, hopens]
      by_cases hdoc : r.opens (code line) = true
      · rw [if_pos hdoc, if_pos hdoc, ih]
      · rw [if_neg hdoc, if_neg hdoc, ih, hheading]
        dsimp only
        rw [List.map_append, Option.toList_map]

lemma walk_empty {lines : List String} (h : ∀ line ∈ lines, line = "") : r.walk inDoc lines = (inDoc, []) := by
  obtain ⟨hopens, hcloses, hheader⟩ := r.blank (code "") rfl
  induction lines generalizing inDoc with
  | nil => cases inDoc <;> rfl
  | cons line lines ih =>
    obtain ⟨rfl, hlines⟩ := List.forall_mem_cons.1 h
    cases inDoc with
    | true =>
      rw [walk, hcloses]
      exact ih hlines
    | false =>
      rw [walk, hopens, if_neg Bool.false_ne_true, ih hlines, heading?, hheader]
      rfl

/-- Inside documentation, lines that do not close it are passed over. -/
lemma walk_doc {lines : List String} (h : ∀ line ∈ lines, r.closes (code line) = false) :
    r.walk true lines = (true, []) := by
  induction lines with
  | nil => rfl
  | cons line lines ih =>
    obtain ⟨hline, hlines⟩ := List.forall_mem_cons.1 h
    rw [walk, hline]
    exact ih hlines

/-! ## Blocks -/

/-- Some lines are lines, and read by themselves they have these headings and leave no documentation open. -/
structure Reads (r : Reading) (lines : List String) (found : List Heading) : Prop where
  ends : ∀ line ∈ lines, '\n' ∉ line.toList
  walk : r.walk false lines = (false, found)

namespace Reads

variable {a b lines : List String} {f g found : List Heading}

lemma of_empty (h : ∀ line ∈ lines, line = "") : r.Reads lines [] where
  ends line hline := by
    rw [h line hline]
    exact List.not_mem_nil
  walk := walk_empty h

lemma none : r.Reads [] [] :=
  ⟨fun _ hline => (List.not_mem_nil hline).elim, rfl⟩

lemma emptyLine : r.Reads [""] [] :=
  .of_empty (List.forall_mem_singleton.2 rfl)

lemma eq_nil (h : r.Reads [] found) : found = [] :=
  (congrArg Prod.snd h.walk).symm

lemma append (ha : r.Reads a f) (hb : r.Reads b g) : r.Reads (a ++ b) (f ++ g) where
  ends := List.forall_mem_append.2 ⟨ha.ends, hb.ends⟩
  walk := by rw [walk_append, ha.walk, hb.walk]

lemma indent (h : r.Reads lines found) : r.Reads (indent lines) (found.map Heading.deeper) where
  ends line hline := by
    obtain ⟨inner, hinner, rfl⟩ := List.mem_map.1 hline
    unfold indentLine
    split
    · exact List.not_mem_nil
    · rw [String.toList_append, List.mem_append]
      exact not_or.2 ⟨by decide, h.ends inner hinner⟩
  walk := by rw [walk_indent, h.walk]

lemma line {line : String} (hends : '\n' ∉ line.toList) (hopens : r.opens (code line) = false) :
    r.Reads [line] (r.heading? line).toList where
  ends := List.forall_mem_singleton.2 hends
  walk := by
    rw [Reading.walk, hopens, if_neg Bool.false_ne_true]
    dsimp only [Reading.walk]
    rw [List.append_nil]

/-- A line that begins with a character that shows heads what it says. -/
lemma shown {line : String} {c : Char} (hends : '\n' ∉ line.toList) (hfirst : line.toList.head? = some c)
    (hshown : Text.isBlank c = false) (hopens : r.opens line.toList = false) :
    r.Reads [line] ((r.header? line.toList).map (Heading.mk 0)).toList := by
  have hcode := Render.code_of_head? hfirst hshown
  have hline := Reads.line (r := r) hends (by rwa [hcode])
  rwa [heading?, hcode, Render.depth_of_head? hfirst hshown] at hline

lemma statements (h : ∀ line ∈ lines, r.Reads [line] []) : r.Reads lines [] := by
  induction lines with
  | nil => exact .none
  | cons line rest ih =>
    obtain ⟨hline, hrest⟩ := List.forall_mem_cons.1 h
    exact hline.append (ih hrest)

/-- A block below a line. -/
lemma block {line : String} (hline : r.Reads [line] f) (hbody : r.Reads lines g) :
    r.Reads (line :: Render.indent lines) (f ++ g.map Heading.deeper) :=
  hline.append hbody.indent

lemma dropEmptyEnd (h : r.Reads lines found) : r.Reads (Render.dropEmptyEnd lines) found := by
  have hsplit : lines = Render.dropEmptyEnd lines ++ (lines.reverse.takeWhile (·.isEmpty)).reverse := by
    rw [Render.dropEmptyEnd, ← List.reverse_append, List.takeWhile_append_dropWhile, List.reverse_reverse]
  have hempty : ∀ line ∈ (lines.reverse.takeWhile (·.isEmpty)).reverse, line = "" := by
    intro line hline
    exact String.isEmpty_iff.1 (List.mem_takeWhile_imp (List.mem_reverse.1 hline))
  have hwalk := h.walk
  rw [hsplit, walk_append, walk_empty hempty, List.append_nil] at hwalk
  refine ⟨fun line hline => h.ends line ?_, hwalk⟩
  rw [hsplit]
  exact List.mem_append_left _ hline

/-- Blocks behind one another, each for a part of something, with lines around them that head nothing. -/
lemma flatMap {before after : List String} (hbefore : r.Reads before []) (hafter : r.Reads after []) {α : Type}
    {parts : List α} {blocks : List (List String)} {f : α → List Heading}
    (h : List.Forall₂ (fun part block => r.Reads block (f part)) parts blocks) :
    r.Reads (blocks.flatMap fun block => before ++ block ++ after) (parts.flatMap f) := by
  induction h with
  | nil => exact .none
  | @cons part block parts blocks hblock _ ih =>
    have hfirst := ((hbefore.append hblock).append hafter).append ih
    rw [List.append_nil] at hfirst
    exact hfirst

lemma spaced {α : Type} {parts : List α} {blocks : List (List String)} {f : α → List Heading}
    (h : List.Forall₂ (fun part block => r.Reads block (f part)) parts blocks) :
    r.Reads (Render.spaced blocks) (parts.flatMap f) :=
  flatMap .none .emptyLine h

lemma spaced_plain {blocks : List (List String)} (h : ∀ block ∈ blocks, r.Reads block []) :
    r.Reads (Render.spaced blocks) [] := by
  have hblocks := spaced (f := fun _ => []) (List.forall₂_same.2 h)
  rwa [List.flatMap_eq_nil_iff.2 fun _ _ => rfl] at hblocks

/-- Documentation heads nothing, whatever is in it but what closes it. -/
lemma doc {opening closing : String} (hends : ∀ line ∈ [opening] ++ lines ++ [closing], '\n' ∉ line.toList)
    (hopens : r.opens (code opening) = true) (hlines : ∀ line ∈ lines, r.closes (code line) = false)
    (hcloses : r.closes (code closing) = true) : r.Reads ([opening] ++ lines ++ [closing]) [] where
  ends := hends
  walk := by
    have hopening : r.walk false [opening] = (true, []) := by
      rw [Reading.walk, if_pos hopens, Reading.walk]
    have hclosing : r.walk true [closing] = (false, []) := by
      rw [Reading.walk, hcloses]
      rfl
    rw [walk_append, walk_append, hopening]
    dsimp only
    rw [walk_doc hlines]
    dsimp only
    rw [hclosing]
    rfl

end Reads

/-! ## Texts -/

/-- The headings in a text, unless documentation is left open in it. -/
def headings? (r : Reading) (text : String) : Option (List Heading) :=
  match r.walk false ((text.toList.splitOn '\n').map String.ofList) with
  | (true, _) => none
  | (false, found) => some found

lemma Reads.headings?_eq {lines : List String} {found : List Heading} (h : r.Reads lines found) {text : String}
    (htext : text.toList = Render.closed lines) : r.headings? text = some found := by
  have hwalk := (h.append .emptyLine).walk
  have hlines : ((lines ++ [""]).map String.toList).map String.ofList = lines ++ [""] := by
    rw [List.map_map]
    exact List.map_id'' (fun _ => String.ofList_toList) _
  rw [headings?, htext, Render.splitOn_closed h.ends, hlines, hwalk]
  simp

end Reading

/-! ## Outlines -/

/-- A heading, and what it is the head of. -/
inductive Outline
  | node (heading : Heading) (inner : List Outline)

namespace Outline

def depth : Outline → Nat
  | .node heading _ => heading.depth

/-- A heading before some outlines is the head of those in front that are deeper. -/
def add (heading : Heading) (outlines : List Outline) : List Outline :=
  .node heading (outlines.takeWhile (heading.depth < ·.depth)) :: outlines.dropWhile (heading.depth < ·.depth)

/-- The outlines that some headings come to. -/
def ofHeadings (headings : List Heading) : List Outline :=
  headings.foldr add []

lemma add_append {heading : Heading} {inner rest : List Outline}
    (hinner : ∀ o ∈ inner, heading.depth < o.depth) (hrest : ∀ o ∈ rest.head?, o.depth ≤ heading.depth) :
    add heading (inner ++ rest) = .node heading inner :: rest := by
  have hdeeper : ∀ o ∈ inner, decide (heading.depth < o.depth) = true := fun o ho => decide_eq_true (hinner o ho)
  have hnone : rest.takeWhile (fun o => decide (heading.depth < o.depth)) = [] ∧
      rest.dropWhile (fun o => decide (heading.depth < o.depth)) = rest := by
    cases rest with
    | nil => exact ⟨rfl, rfl⟩
    | cons o rest =>
      have ho : o.depth ≤ heading.depth := hrest o rfl
      have hnot : ¬ decide (heading.depth < o.depth) = true := by simpa using ho
      exact ⟨List.takeWhile_cons_of_neg hnot, List.dropWhile_cons_of_neg hnot⟩
  rw [add, List.takeWhile_append_of_pos hdeeper, List.dropWhile_append_of_pos hdeeper, hnone.1, hnone.2,
    List.append_nil]

end Outline

/-- The outline of a text, unless documentation is left open in it. -/
def Reading.outline? (r : Reading) (text : String) : Option (List Outline) :=
  (r.headings? text).map Outline.ofHeadings

namespace TypeTree

mutual

/-- The headings of a class: its own at some level, and one level deeper those of its methods and of the classes in
it. -/
def headings (level : Nat) : TypeTree → List Heading
  | .node _ t inner =>
    ⟨4 * level, .type t.name⟩ ::
      (t.methods.map (fun method => ⟨4 * (level + 1), .method method.name⟩) ++ allHeadings (level + 1) inner)

def allHeadings (level : Nat) : List TypeTree → List Heading
  | [] => []
  | tree :: rest => headings level tree ++ allHeadings level rest

end

lemma allHeadings_eq_flatMap (level : Nat) (trees : List TypeTree) :
    allHeadings level trees = trees.flatMap (headings level) := by
  induction trees with
  | nil => rw [allHeadings, List.flatMap_nil]
  | cons tree rest ih => rw [allHeadings, ih, List.flatMap_cons]

mutual

/-- The outline of a class whose header is at some level, four blanks each: its methods and then the classes in it, one
level deeper. -/
def outline (level : Nat) : TypeTree → Outline
  | .node _ t inner =>
    .node ⟨4 * level, .type t.name⟩
      (t.methods.map (fun method => .node ⟨4 * (level + 1), .method method.name⟩ []) ++ outlines (level + 1) inner)

def outlines (level : Nat) : List TypeTree → List Outline
  | [] => []
  | tree :: rest => outline level tree :: outlines level rest

end

lemma depth_outline (level : Nat) (tree : TypeTree) : (tree.outline level).depth = 4 * level := by
  cases tree
  rw [outline]
  rfl

lemma outlines_eq_map (level : Nat) (trees : List TypeTree) : outlines level trees = trees.map (outline level) := by
  induction trees with
  | nil => rw [outlines, List.map_nil]
  | cons tree rest ih => rw [outlines, ih, List.map_cons]

/-- Methods have nothing below them. -/
lemma foldr_methods {depth : Nat} (methods : List Method) {rest : List Outline}
    (hrest : ∀ o ∈ rest.head?, o.depth ≤ depth) :
    (methods.map (fun method => Heading.mk depth (.method method.name))).foldr Outline.add rest =
      methods.map (fun method => .node ⟨depth, .method method.name⟩ []) ++ rest := by
  induction methods with
  | nil => rfl
  | cons method methods ih =>
    rw [List.map_cons, List.foldr_cons, ih, List.map_cons, List.cons_append]
    change Outline.add _ ([] ++ _) = _
    refine Outline.add_append (fun _ ho => (List.not_mem_nil ho).elim) fun o ho => ?_
    cases methods with
    | nil => exact hrest o ho
    | cons next methods =>
      obtain rfl := Option.some.inj ho
      exact le_rfl

mutual

/-- The headings of a class come to its outline, whatever stands behind it that is not deeper. -/
lemma foldr_headings : (tree : TypeTree) → ∀ {level : Nat} {rest : List Outline},
    (∀ o ∈ rest.head?, o.depth ≤ 4 * level) →
      (tree.headings level).foldr Outline.add rest = tree.outline level :: rest
  | .node id t inner, level, rest, hrest => by
    have hdeeper : ∀ o ∈ rest.head?, o.depth ≤ 4 * (level + 1) := fun o ho => (hrest o ho).trans (by omega)
    have hinner : ∀ o ∈ (outlines (level + 1) inner ++ rest).head?, o.depth ≤ 4 * (level + 1) := by
      intro o ho
      rw [outlines_eq_map, List.head?_append] at ho
      cases inner with
      | nil => exact hdeeper o ho
      | cons tree inner =>
        obtain rfl := Option.some.inj ho
        exact (depth_outline _ _).le
    rw [headings, outline, List.foldr_cons, List.foldr_append, foldr_allHeadings inner hdeeper, foldr_methods _ hinner,
      ← List.append_assoc]
    refine Outline.add_append (fun o ho => ?_) hrest
    have hlevel : 4 * level < 4 * (level + 1) := by omega
    rcases List.mem_append.1 ho with ho | ho
    · obtain ⟨method, -, rfl⟩ := List.mem_map.1 ho
      exact hlevel
    · rw [outlines_eq_map] at ho
      obtain ⟨tree, -, rfl⟩ := List.mem_map.1 ho
      rw [depth_outline]
      exact hlevel

lemma foldr_allHeadings : (trees : List TypeTree) → ∀ {level : Nat} {rest : List Outline},
    (∀ o ∈ rest.head?, o.depth ≤ 4 * level) →
      (allHeadings level trees).foldr Outline.add rest = outlines level trees ++ rest
  | [], _, _, _ => by
    rw [allHeadings, outlines]
    rfl
  | tree :: others, level, rest, hrest => by
    rw [allHeadings, outlines, List.foldr_append, foldr_allHeadings others hrest, List.cons_append]
    apply foldr_headings tree
    intro o ho
    rw [outlines_eq_map, List.head?_append] at ho
    cases others with
    | nil => exact hrest o ho
    | cons next others =>
      obtain rfl := Option.some.inj ho
      exact (depth_outline _ _).le

end

/-- The headings of classes beside one another come to their outlines. -/
lemma ofHeadings_allHeadings (level : Nat) (trees : List TypeTree) :
    Outline.ofHeadings (allHeadings level trees) = trees.map (outline level) := by
  rw [Outline.ofHeadings, foldr_allHeadings trees fun _ ho => (Option.not_mem_none _ ho).elim, outlines_eq_map,
    List.append_nil]

mutual

lemma map_deeper_headings (level : Nat) : (tree : TypeTree) →
    (tree.headings level).map Heading.deeper = tree.headings (level + 1)
  | .node id t inner => by
    rw [headings, headings, List.map_cons, List.map_append, List.map_map, map_deeper_allHeadings (level + 1) inner]
    rfl

/-- Classes one level deeper have their headings there. -/
lemma map_deeper_allHeadings (level : Nat) : (trees : List TypeTree) →
    (allHeadings level trees).map Heading.deeper = allHeadings (level + 1) trees
  | [] => by
    rw [allHeadings, allHeadings]
    rfl
  | tree :: rest => by
    rw [allHeadings, allHeadings, List.map_append, map_deeper_headings level tree, map_deeper_allHeadings level rest]

end

/-- What the block below the header of a class heads, read by itself. -/
def members (t : WrapperType) (inner : List TypeTree) : List Heading :=
  t.methods.map (fun method => ⟨0, .method method.name⟩) ++ allHeadings 0 inner

lemma headings_node (id : TypeId) (t : WrapperType) (inner : List TypeTree) :
    headings 0 (.node id t inner) = [⟨0, .type t.name⟩] ++ (members t inner).map Heading.deeper := by
  rw [headings, members, List.map_append, List.map_map, map_deeper_allHeadings]
  rfl

/-- The block below the header of a class: blocks that head nothing, those of its methods, and those of the classes in
it. -/
lemma reads_members {r : Reading} {t : WrapperType} {inner : List TypeTree} {plain methods nested : List (List String)}
    {methodLines : Method → Except Failure (List String)} (hplain : ∀ block ∈ plain, r.Reads block [])
    (hmethods : t.methods.mapM methodLines = .ok methods)
    (hheaded : ∀ method ∈ t.methods, ∀ lines, methodLines method = .ok lines →
      r.Reads lines [⟨0, .method method.name⟩])
    (hnested : List.Forall₂ (fun tree block => r.Reads block (tree.headings 0)) inner nested) :
    r.Reads (Render.dropEmptyEnd (Render.spaced (plain ++ methods ++ nested))) (members t inner) := by
  have hblocks : List.Forall₂ (fun method block => r.Reads block [⟨0, .method method.name⟩]) t.methods methods :=
    ((List.forall₂_and_left _ _).2 ⟨fun _ hmethod => hmethod, forall₂_of_mapM_eq_ok hmethods⟩).imp
      fun method block hblock => hheaded method hblock.1 block hblock.2
  have hall := ((Reading.Reads.spaced_plain hplain).append (.spaced hblocks)).append (.spaced hnested)
  rw [List.nil_append, ← List.map_eq_flatMap, ← allHeadings_eq_flatMap] at hall
  apply Reading.Reads.dropEmptyEnd
  rwa [Render.spaced, List.flatMap_append, List.flatMap_append]

end TypeTree

end SchemaAccessors
