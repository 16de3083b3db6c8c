import Mathlib.Data.List.TakeWhile
import Mathlib.Tactic.Common
import SchemaAccessors.Output.Check
import SchemaAccessors.Render.Python

/-!
# Docstrings

Documentation stands in a docstring between lines of three quotation marks. It may hold such marks itself, and they
are escaped. Quotation marks that are left over may still stand three in a row, behind the last escaped one, but a
backslash is then in front of them. Documentation is escaped before it is cut into lines, but no line end falls into
what is escaped, so its lines are escaped lines, and none of them is taken for the end of its docstring.
-/

namespace SchemaAccessors

/-! ## Lines -/

namespace Text

/-- Characters that end no line belong to the line that is open. -/
lemma linesFrom_append {start : List Char} (h : ∀ c ∈ start, isLineEnd c = false) (line rest : List Char) :
    linesFrom line (start ++ rest) = linesFrom (start.reverse ++ line) rest := by
  induction start generalizing line with
  | nil => rfl
  | cons c start ih =>
    obtain ⟨hc, hstart⟩ := List.forall_mem_cons.1 h
    rw [List.cons_append, linesFrom, if_neg (by simp [hc]), ih hstart]
    · simp
    · rintro _ rfl
      exact absurd hc (by decide)

/-- A line end closes the line, unless it is the first of a pair. -/
lemma linesFrom_cons {c : Char} (hc : isLineEnd c = true) {rest : List Char}
    (hpair : ∀ after, c = '\r' → rest = '\n' :: after → False) (line : List Char) :
    linesFrom line (c :: rest) = line.reverse :: linesFrom [] rest := by
  rw [linesFrom, if_pos hc]
  exact hpair

/-- A line of a text is a part of it. -/
lemma mem_of_mem_linesFrom {line text l : List Char} (hl : l ∈ linesFrom line text) {c : Char} (hc : c ∈ l) :
    c ∈ line ∨ c ∈ text := by
  fun_induction linesFrom line text with
  | case1 => cases hl
  | case2 line =>
    rw [List.mem_singleton.1 hl] at hc
    exact .inl (List.mem_reverse.1 hc)
  | case3 line rest ih =>
    rcases List.mem_cons.1 hl with rfl | hl
    · exact .inl (List.mem_reverse.1 hc)
    · have hrest := (ih hl).resolve_left List.not_mem_nil
      exact .inr (List.mem_cons_of_mem _ (List.mem_cons_of_mem _ hrest))
  | case4 line d rest _ _ ih =>
    rcases List.mem_cons.1 hl with rfl | hl
    · exact .inl (List.mem_reverse.1 hc)
    · exact .inr (List.mem_cons_of_mem _ ((ih hl).resolve_left List.not_mem_nil))
  | case5 line d rest _ _ ih =>
    rcases ih hl with hline | hrest
    · rcases List.mem_cons.1 hline with rfl | hline
      · exact .inr List.mem_cons_self
      · exact .inl hline
    · exact .inr (List.mem_cons_of_mem _ hrest)

lemma subset_of_mem_lines {text line : String} (h : line ∈ lines text) : line.toList ⊆ text.toList := by
  obtain ⟨l, hl, rfl⟩ := List.mem_map.1 h
  rw [String.toList_ofList]
  exact fun c hc => (mem_of_mem_linesFrom hl hc).resolve_left List.not_mem_nil

end Text

namespace Render.Python

/-! ## Escaped text -/

/-- Where escaped documentation begins with anything but a backslash, nothing is escaped. -/
lemma escapeDoc_eq_cons {c : Char} {text out : List Char} (hc : c ≠ '\\') (h : escapeDoc text = c :: out) :
    ∃ rest, text = c :: rest ∧ out = escapeDoc rest := by
  fun_cases escapeDoc text with
  | case1 rest => exact absurd (List.cons.inj h).1.symm hc
  | case2 rest => exact absurd (List.cons.inj h).1.symm hc
  | case3 d rest h₁ h₂ =>
    rw [escapeDoc] at h
    · obtain ⟨rfl, rfl⟩ := List.cons.inj h
      exact ⟨rest, rfl, rfl⟩
    · exact h₁
    · exact h₂
  | case4 => simp [escapeDoc] at h

lemma escapeDoc_cons {c : Char} (hquote : c ≠ '"') (hbackslash : c ≠ '\\') (rest : List Char) :
    escapeDoc (c :: rest) = c :: escapeDoc rest := by
  rw [escapeDoc]
  · exact hbackslash
  · exact fun _ heq => absurd heq hquote

/-- Escapes do not go on over anything but a quotation mark. -/
lemma escapeDoc_append {mark : Char} (hmark : mark ≠ '"') (text rest : List Char) :
    escapeDoc (text ++ mark :: rest) = escapeDoc text ++ escapeDoc (mark :: rest) := by
  fun_induction escapeDoc text with
  | case1 text ih =>
    rw [List.cons_append, escapeDoc, ih]
    rfl
  | case2 text ih =>
    simp only [List.cons_append]
    rw [escapeDoc, ih]
  | case3 c text h₁ h₂ ih =>
    rw [List.cons_append, escapeDoc, ih]
    · rfl
    · exact h₁
    · intro behind hc hmarks
      rcases text with _ | ⟨d, _ | ⟨e, text⟩⟩
      · exact hmark (List.cons.inj hmarks).1
      · exact hmark (List.cons.inj (List.cons.inj hmarks).2).1
      · obtain ⟨rfl, hrest⟩ := List.cons.inj hmarks
        obtain ⟨rfl, -⟩ := List.cons.inj hrest
        exact h₂ text hc rfl
  | case4 => simp

/-- Escapes add nothing but backslashes. -/
lemma mem_escapeDoc {text : List Char} {c : Char} (h : c ∈ escapeDoc text) : c ∈ text ∨ c = '\\' := by
  fun_induction escapeDoc text with
  | case4 => cases h
  | _ =>
    simp only [List.mem_cons] at h ⊢
    tauto

lemma subset_escapeDoc (text : List Char) : text ⊆ escapeDoc text := by
  intro c hc
  fun_induction escapeDoc text with
  | case4 => cases hc
  | _ =>
    simp only [List.mem_cons] at hc ⊢
    tauto

/-- The lines of escaped documentation are the lines of the documentation, escaped. -/
lemma linesFrom_escapeDoc (line text : List Char) (hline : ∀ c ∈ line, Text.isLineEnd c = false) :
    Text.linesFrom [] (escapeDoc (line.reverse ++ text)) = (Text.linesFrom line text).map escapeDoc := by
  have hescaped {line : List Char} (hline : ∀ c ∈ line, Text.isLineEnd c = false) :
      ∀ c ∈ escapeDoc line.reverse, Text.isLineEnd c = false := by
    intro c hc
    rcases mem_escapeDoc hc with hc | rfl
    · exact hline c (List.mem_reverse.1 hc)
    · decide
  have hends {c : Char} (hc : Text.isLineEnd c = true) : c ≠ '"' ∧ c ≠ '\\' := by
    constructor <;>
    · rintro rfl
      exact absurd hc (by decide)
  fun_induction Text.linesFrom line text with
  | case1 line hempty =>
    rw [List.isEmpty_iff.1 hempty]
    rfl
  | case2 line hempty =>
    have hshown : (escapeDoc line.reverse).reverse.isEmpty = false := by
      rw [List.isEmpty_eq_false_iff, Ne, List.reverse_eq_nil_iff, ← Ne]
      have hne : line.reverse ≠ [] := by simpa using hempty
      exact List.ne_nil_of_mem (subset_escapeDoc _ (List.head_mem hne))
    have hsplit := Text.linesFrom_append (hescaped hline) [] []
    rw [List.append_nil, List.append_nil, Text.linesFrom, hshown, if_neg Bool.false_ne_true,
      List.reverse_reverse] at hsplit
    rw [List.append_nil, hsplit]
    rfl
  | case3 line rest ih =>
    rw [escapeDoc_append (by decide), escapeDoc_cons (by decide) (by decide), escapeDoc_cons (by decide) (by decide),
      Text.linesFrom_append (hescaped hline), Text.linesFrom, List.append_nil, List.reverse_reverse, List.map_cons,
      ← ih nofun]
    rfl
  | case4 line c rest hpair hc ih =>
    obtain ⟨hquote, hbackslash⟩ := hends hc
    have hescapedPair : ∀ after, c = '\r' → escapeDoc rest = '\n' :: after → False := by
      intro after hreturn hfeed
      obtain ⟨after, hrest, -⟩ := escapeDoc_eq_cons (by decide) hfeed
      exact hpair after hreturn hrest
    rw [escapeDoc_append hquote, escapeDoc_cons hquote hbackslash, Text.linesFrom_append (hescaped hline),
      Text.linesFrom_cons hc hescapedPair, List.append_nil, List.reverse_reverse, List.map_cons, ← ih nofun]
    rfl
  | case5 line c rest hpair hc ih =>
    have hmore : ∀ d ∈ c :: line, Text.isLineEnd d = false :=
      List.forall_mem_cons.2 ⟨by simpa using hc, hline⟩
    rw [← ih hmore]
    simp

/-- A line with the escapes of documentation. -/
def escapeLine (line : String) : String :=
  String.ofList (escapeDoc line.toList)

lemma lines_escapeDoc (doc : String) :
    Text.lines (String.ofList (escapeDoc doc.toList)) = (Text.lines doc).map escapeLine := by
  have hlines := linesFrom_escapeDoc [] doc.toList nofun
  rw [List.reverse_nil, List.nil_append] at hlines
  simp [Text.lines, escapeLine, hlines, Function.comp_def]

/-! ## Marks -/

/-- The marks around a docstring. -/
def marks : List Char := "\"\"\"".toList

/-- Wherever marks stand in a text, a backslash stands in front of them. -/
def Escaped (text : List Char) : Prop :=
  ∀ before after, text = before ++ marks ++ after → before.getLast? = some '\\'

lemma Escaped.cons {c : Char} {text : List Char} (h : Escaped text) (hstart : ¬ marks <+: c :: text) :
    Escaped (c :: text) := by
  intro before after htext
  cases before with
  | nil => exact absurd ⟨after, htext.symm⟩ hstart
  | cons d before =>
    have hlast := h before after (List.cons.inj htext).2
    rw [List.getLast?_cons, hlast, Option.getD_some]

/-- After a backslash, a character does not count towards marks. -/
lemma Escaped.backslash {text : List Char} (h : Escaped text) (c : Char) : Escaped ('\\' :: c :: text) := by
  intro before after htext
  rcases before with _ | ⟨d, _ | ⟨e, before⟩⟩
  · exact absurd (List.cons.inj htext).1 (by decide)
  · rw [← (List.cons.inj htext).1]
    rfl
  · have hlast := h before after (List.cons.inj (List.cons.inj htext).2).2
    rw [List.getLast?_cons, List.getLast?_cons, hlast]
    rfl

/-- Escaped documentation has no marks but behind a backslash. -/
lemma escaped_escapeDoc (text : List Char) : Escaped (escapeDoc text) := by
  fun_induction escapeDoc text with
  | case1 rest ih => exact ih.backslash '\\'
  | case2 rest ih => exact ((ih.backslash '"').backslash '"').backslash '"'
  | case3 c rest h₁ h₂ ih =>
    refine ih.cons fun hstart => ?_
    obtain ⟨after, hmarks⟩ := hstart
    obtain ⟨hfirst, htail⟩ := List.cons.inj hmarks
    obtain ⟨second, hrest, hout⟩ := escapeDoc_eq_cons (c := '"') (by decide) htail.symm
    obtain ⟨third, hsecond, -⟩ := escapeDoc_eq_cons (c := '"') (by decide) hout.symm
    exact h₂ third hfirst.symm (by rw [hrest, hsecond])
  | case4 =>
    intro before after htext
    simp [marks] at htext

/-- In a line of escaped documentation, too, a backslash stands in front of marks. -/
lemma escaped_of_mem_lines {doc line : String} (h : line ∈ Text.lines (String.ofList (escapeDoc doc.toList))) :
    Escaped line.toList := by
  rw [lines_escapeDoc] at h
  obtain ⟨shown, -, rfl⟩ := List.mem_map.1 h
  rw [escapeLine, String.toList_ofList]
  exact escaped_escapeDoc _

/-- No line of escaped documentation is taken for the end of the docstring. -/
lemma isDocMark_of_mem_lines {doc line : String} (h : line ∈ Text.lines (String.ofList (escapeDoc doc.toList))) :
    Output.isDocMark line.toList = false := by
  by_contra hmark
  have hdrop : line.toList.dropWhile (· = ' ') = marks := by simpa [Output.isDocMark, marks] using hmark
  have hsplit : line.toList = line.toList.takeWhile (· = ' ') ++ marks ++ [] := by
    rw [← hdrop, List.takeWhile_append_dropWhile, List.append_nil]
  have hlast := escaped_of_mem_lines h _ _ hsplit
  have hblank := List.mem_takeWhile_imp (List.mem_of_getLast? hlast)
  exact absurd hblank (by decide)

end Render.Python

end SchemaAccessors
