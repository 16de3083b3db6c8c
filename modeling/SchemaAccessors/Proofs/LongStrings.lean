import Mathlib.Logic.Function.Iterate
import SchemaAccessors.Proofs.Docstrings
import SchemaAccessors.Proofs.Indentation
import SchemaAccessors.Proofs.Literals
import SchemaAccessors.Proofs.Outcome

/-!
# Long string literals of Python

A docstring is a string literal over several lines. Python finds its end first: the next three quotation marks in a
row, where a backslash hides the character behind it. Then it reads what is in between, with the escapes of any other
literal. Neither comes in the way of what is done to documentation in between: its lines are escaped lines, no group of
marks goes over a line end, and blanks are not escaped. So a docstring ends at its last line, at any indentation, and
its lines are read as those of the documentation.
-/

namespace SchemaAccessors.Render.Python

/-! ## Reading a long literal -/

namespace LongLiteral

/-- What is in front of the next three quotation marks in a row, and what is behind them. A backslash hides the
character behind it, and both are kept. -/
def cut : List Char → Option (List Char × List Char)
  | '"' :: '"' :: '"' :: rest => some ([], rest)
  | '\\' :: c :: rest => (cut rest).map fun found => ('\\' :: c :: found.1, found.2)
  | c :: rest => (cut rest).map fun found => (c :: found.1, found.2)
  | [] => none

/-- What one more character of a long literal adds, and where the reader stands behind it. Quotation marks and line
ends stand for themselves, and escapes are those of any literal. -/
def step : Literal.Mode → Char → Option (List Nat × Literal.Mode)
  | .plain, c => some (if c = '\\' then ([], .escaped) else ([c.toNat], .plain))
  | .octal more value, c =>
    match more, Literal.octalValue? c with
    | more + 1, some digit => some ([], .octal more (value * 8 + digit))
    | _, _ => some (if c = '\\' then ([value], .escaped) else ([value, c.toNat], .plain))
  | mode, c => Literal.step mode c

/-- The code points of what is in a long literal. -/
def readFrom : Literal.Mode → List Char → Option (List Nat)
  | .plain, [] => some []
  | .octal _ value, [] => some [value]
  | _, [] => none
  | mode, c :: rest => do
    let (points, next) ← step mode c
    return points ++ (← readFrom next rest)

/-- A character that has no part in marks or escapes. -/
def IsPlain (c : Char) : Prop :=
  c ≠ '"' ∧ c ≠ '\\'

instance (c : Char) : Decidable (IsPlain c) :=
  inferInstanceAs (Decidable (_ ∧ _))

lemma isPlain_of_isBlank {c : Char} (h : Text.isBlank c = true) : IsPlain c := by
  constructor <;>
  · rintro rfl
    exact absurd h (by decide)

/-! ### The end of the literal -/

lemma cut_of_isPlain {c : Char} (h : IsPlain c) (rest : List Char) :
    cut (c :: rest) = (cut rest).map fun found => (c :: found.1, found.2) := by
  rw [cut]
  · exact fun _ heq => absurd heq h.1
  · exact fun _ _ heq => absurd heq h.2

lemma cut_hidden (c : Char) (rest : List Char) :
    cut ('\\' :: c :: rest) = (cut rest).map fun found => ('\\' :: c :: found.1, found.2) := by
  rw [cut]

/-- The end is not found in escaped documentation, nor where it meets anything but a quotation mark. -/
lemma cut_escapeDoc (text : List Char) {mark : Char} (hmark : mark ≠ '"') (rest : List Char) :
    cut (escapeDoc text ++ mark :: rest) =
      (cut (mark :: rest)).map fun found => (escapeDoc text ++ found.1, found.2) := by
  fun_induction escapeDoc text with
  | case1 text ih =>
    rw [List.cons_append, List.cons_append, cut_hidden, ih, Option.map_map]
    rfl
  | case2 text ih =>
    simp only [List.cons_append]
    rw [cut_hidden, cut_hidden, cut_hidden, ih, Option.map_map, Option.map_map, Option.map_map]
    rfl
  | case3 c text h₁ h₂ ih =>
    -- two of the marks that are left over may stand here, and the third would be one of what was escaped
    have hgroup : ∀ behind, c = '"' → escapeDoc text ++ mark :: rest = '"' :: '"' :: behind → False := by
      intro behind hc hmarks
      cases hfirst : escapeDoc text with
      | nil =>
        rw [hfirst] at hmarks
        exact hmark (List.cons.inj hmarks).1
      | cons d out =>
        rw [hfirst, List.cons_append] at hmarks
        obtain ⟨rfl, hout⟩ := List.cons.inj hmarks
        obtain ⟨more, rfl, rfl⟩ := escapeDoc_eq_cons (by decide) hfirst
        cases hsecond : escapeDoc more with
        | nil =>
          rw [hsecond] at hout
          exact hmark (List.cons.inj hout).1
        | cons e out =>
          rw [hsecond, List.cons_append] at hout
          obtain ⟨rfl, -⟩ := List.cons.inj hout
          obtain ⟨last, rfl, -⟩ := escapeDoc_eq_cons (by decide) hsecond
          exact h₂ last hc rfl
    rw [List.cons_append, cut, ih, Option.map_map]
    · rfl
    · exact hgroup
    · exact fun _ _ hc _ => h₁ hc
  | case4 => simp

lemma cut_plain {text : List Char} (h : ∀ c ∈ text, IsPlain c) (rest : List Char) :
    cut (text ++ rest) = (cut rest).map fun found => (text ++ found.1, found.2) := by
  induction text with
  | nil => simp
  | cons c text ih =>
    obtain ⟨hc, htext⟩ := List.forall_mem_cons.1 h
    rw [List.cons_append, cut_of_isPlain hc, ih htext, Option.map_map]
    rfl

/-! ### The meaning of the literal -/

lemma readFrom_of_step {mode next : Literal.Mode} {c : Char} {points : List Nat} (h : step mode c = some (points, next))
    (rest : List Char) : readFrom mode (c :: rest) = (readFrom next rest).map (points ++ ·) := by
  rw [readFrom, h, Option.bind_eq_bind, Option.bind_some]
  dsimp only
  cases readFrom next rest <;> rfl

lemma readFrom_hidden {c : Char} {point : Nat} (h : Literal.shortEscape? c = some point) (rest : List Char) :
    readFrom .plain ('\\' :: c :: rest) = (readFrom .plain rest).map ([point] ++ ·) := by
  have hbackslash : step .plain '\\' = some ([], .escaped) := rfl
  have hescape : step .escaped c = some ([point], .plain) := by
    simp [step, Literal.step, Literal.escapeStep, h]
  rw [readFrom_of_step hbackslash, readFrom_of_step hescape, Option.map_map]
  rfl

lemma readFrom_of_ne {c : Char} (h : c ≠ '\\') (rest : List Char) :
    readFrom .plain (c :: rest) = (readFrom .plain rest).map ([c.toNat] ++ ·) := by
  have hstep : step .plain c = some ([c.toNat], .plain) := congrArg some (if_neg h)
  exact readFrom_of_step hstep rest

/-- Escaped documentation is read as it was. -/
lemma readFrom_escapeDoc (text rest : List Char) :
    readFrom .plain (escapeDoc text ++ rest) = (readFrom .plain rest).map (text.map Char.toNat ++ ·) := by
  have hquote (rest : List Char) : readFrom .plain ('\\' :: '"' :: rest) = (readFrom .plain rest).map ([0x22] ++ ·) :=
    readFrom_hidden rfl rest
  have hbackslash (rest : List Char) :
      readFrom .plain ('\\' :: '\\' :: rest) = (readFrom .plain rest).map ([0x5c] ++ ·) := readFrom_hidden rfl rest
  fun_induction escapeDoc text with
  | case1 text ih =>
    rw [List.cons_append, List.cons_append, hbackslash, ih, Option.map_map]
    rfl
  | case2 text ih =>
    simp only [List.cons_append]
    rw [hquote, hquote, hquote, ih, Option.map_map, Option.map_map, Option.map_map]
    rfl
  | case3 c text h₁ h₂ ih =>
    rw [List.cons_append, readFrom_of_ne h₁, ih, Option.map_map]
    rfl
  | case4 => simp

lemma readFrom_plain {text : List Char} (h : ∀ c ∈ text, IsPlain c) (rest : List Char) :
    readFrom .plain (text ++ rest) = (readFrom .plain rest).map (text.map Char.toNat ++ ·) := by
  induction text with
  | nil => simp
  | cons c text ih =>
    obtain ⟨hc, htext⟩ := List.forall_mem_cons.1 h
    rw [List.cons_append, readFrom_of_ne hc.2, ih htext, Option.map_map]
    rfl

end LongLiteral

/-! ## Indentation -/

open LongLiteral (IsPlain isPlain_of_isBlank)

lemma escapeDoc_plain {start : List Char} (h : ∀ c ∈ start, IsPlain c) (rest : List Char) :
    escapeDoc (start ++ rest) = start ++ escapeDoc rest := by
  induction start with
  | nil => rfl
  | cons c start ih =>
    obtain ⟨⟨hquote, hbackslash⟩, hstart⟩ := List.forall_mem_cons.1 h
    rw [List.cons_append, escapeDoc_cons hquote hbackslash, ih hstart, List.cons_append]

lemma isBlankLine_escapeLine (line : String) : Text.isBlankLine (escapeLine line) = Text.isBlankLine line := by
  rw [isBlankLine_eq, isBlankLine_eq, escapeLine, String.toList_ofList, Bool.eq_iff_iff, List.all_eq_true,
    List.all_eq_true]
  constructor
  · exact fun h c hc => h c (subset_escapeDoc _ hc)
  · intro h
    have hself := escapeDoc_plain (fun c hc => isPlain_of_isBlank (h c hc)) []
    rw [List.append_nil, escapeDoc, List.append_nil] at hself
    rwa [hself]

/-- An escaped line is indented like the line. -/
lemma indentLine_escapeLine (line : String) : indentLine (escapeLine line) = escapeLine (indentLine line) := by
  unfold indentLine
  rw [isBlankLine_escapeLine]
  split
  · rfl
  · have hunit : ∀ c ∈ indentUnit.toList, IsPlain c := by decide
    rw [escapeLine, escapeLine, String.toList_append, escapeDoc_plain hunit, String.ofList_append,
      String.ofList_toList]

/-- Indented `k` times, lines are indented one by one. -/
lemma iterate_indent (k : Nat) (lines : List String) : indent^[k] lines = lines.map indentLine^[k] := by
  induction k generalizing lines with
  | zero => simp
  | succ k ih => rw [Function.iterate_succ_apply, ih, indent, List.map_map, ← Function.iterate_succ]

lemma iterate_indent_escapeLine (k : Nat) (lines : List String) :
    indent^[k] (lines.map escapeLine) = (indent^[k] lines).map escapeLine := by
  have hcommute : Function.Commute indentLine escapeLine := indentLine_escapeLine
  rw [iterate_indent, iterate_indent, List.map_map, List.map_map, (hcommute.iterate_left k).comp_eq]

/-- The blanks that `k` levels put in front of a line. -/
def margin (k : Nat) : List Char :=
  List.replicate (k * indentUnit.length) ' '

/-- A line that shows something stands behind the blanks of its level. -/
lemma toList_iterate_indentLine {line : String} {c : Char} (hc : c ∈ line.toList) (hshown : Text.isBlank c = false)
    (k : Nat) : (indentLine^[k] line).toList = margin k ++ line.toList := by
  induction k with
  | zero => simp [margin]
  | succ k ih =>
    have hshows : c ∈ (indentLine^[k] line).toList := by
      rw [ih]
      exact List.mem_append_right _ hc
    have hmargin : margin (k + 1) = indentUnit.toList ++ margin k := by
      rw [margin, Nat.succ_mul, Nat.add_comm, List.replicate_add]
      rfl
    rw [Function.iterate_succ_apply', indentLine, isBlankLine_of_mem hshows hshown, if_neg Bool.false_ne_true,
      String.toList_append, ih, hmargin, List.append_assoc]

/-- The marks of a docstring stand behind the blanks of their level. -/
lemma toList_iterate_indentLine_marks (k : Nat) : (indentLine^[k] "\"\"\"").toList = margin k ++ marks :=
  toList_iterate_indentLine (c := '"') (by decide) (by decide) k

/-- Indented lines and marks, where they stand in a file. -/
lemma toList_unlines_docstring (k : Nat) (lines : List String) :
    (unlines (indent^[k] (["\"\"\""] ++ lines ++ ["\"\"\""]))).toList =
      margin k ++ marks ++ '\n' :: (closed (indent^[k] lines) ++ margin k) ++ marks := by
  have hindented : indent^[k] (["\"\"\""] ++ lines ++ ["\"\"\""]) =
      [indentLine^[k] "\"\"\""] ++ indent^[k] lines ++ [indentLine^[k] "\"\"\""] := by
    simp only [iterate_indent, List.map_append, List.map_singleton]
  have hclosed : _ = (unlines (indent^[k] (["\"\"\""] ++ lines ++ ["\"\"\""]))).toList ++ ['\n'] :=
    closed_unlines (by rw [hindented]; simp)
  have hmarks : closed [indentLine^[k] "\"\"\""] = margin k ++ marks ++ ['\n'] := by
    rw [closed, List.flatMap_singleton, toList_iterate_indentLine_marks]
  rw [hindented, closed_append, closed_append, hmarks, ← hindented] at hclosed
  apply List.append_cancel_right (hclosed.symm.trans _)
  simp

/-! ## Docstrings -/

lemma closed_escapeLine (line : String) (lines : List String) (rest : List Char) :
    closed ((line :: lines).map escapeLine) ++ rest =
      escapeDoc line.toList ++ '\n' :: (closed (lines.map escapeLine) ++ rest) := by
  simp [closed, escapeLine]

/-- The end of a docstring is not found in its lines. -/
lemma LongLiteral.cut_closed (lines : List String) (rest : List Char) :
    cut (closed (lines.map escapeLine) ++ rest) =
      (cut rest).map fun found => (closed (lines.map escapeLine) ++ found.1, found.2) := by
  induction lines with
  | nil => simp [closed]
  | cons line lines ih =>
    have hclosed := closed_escapeLine line lines
    rw [hclosed, cut_escapeDoc _ (by decide), cut_of_isPlain (by decide), ih, Option.map_map, Option.map_map]
    simp only [hclosed]
    rfl

/-- Lines that are escaped are read as they were. -/
lemma LongLiteral.readFrom_closed (lines : List String) (rest : List Char) :
    readFrom .plain (closed (lines.map escapeLine) ++ rest) =
      (readFrom .plain rest).map ((closed lines).map Char.toNat ++ ·) := by
  induction lines with
  | nil => simp [closed]
  | cons line lines ih =>
    rw [closed_escapeLine, readFrom_escapeDoc, readFrom_of_ne (by decide), ih, Option.map_map, Option.map_map]
    simp [closed, Function.comp_def]

/-- A docstring is one literal. At any level of indentation it ends at the last marks and not before, and it means
the lines of the documentation, between two line ends and with that indentation. Read by itself, each of its lines
means a line of the documentation. -/
theorem docstring_reads (doc : String) :
    (∃ lines, docstring doc = ["\"\"\""] ++ lines ++ ["\"\"\""] ∧
      lines.map (fun line => LongLiteral.readFrom .plain line.toList) =
        (Text.lines doc).map fun line => some (points line)) ∧
    ∀ k, ∃ body, (unlines (indent^[k] (docstring doc))).toList = margin k ++ marks ++ body ++ marks ∧
      (∀ rest, LongLiteral.cut (body ++ marks ++ rest) = some (body, rest)) ∧
      LongLiteral.readFrom .plain body =
        some (('\n' :: (closed (indent^[k] (Text.lines doc)) ++ margin k)).map Char.toNat) := by
  have hdocstring : docstring doc = ["\"\"\""] ++ (Text.lines doc).map escapeLine ++ ["\"\"\""] := by
    rw [docstring, lines_escapeDoc]
  have hmargin (k : Nat) : ∀ c ∈ margin k, IsPlain c := by
    intro c hc
    rw [List.eq_of_mem_replicate hc]
    decide
  constructor
  · refine ⟨_, hdocstring, ?_⟩
    rw [List.map_map]
    refine List.map_congr_left fun line _ => ?_
    have hline := LongLiteral.readFrom_escapeDoc line.toList []
    rw [List.append_nil] at hline
    simp [escapeLine, hline, LongLiteral.readFrom, points]
  · intro k
    refine ⟨'\n' :: (closed (indent^[k] ((Text.lines doc).map escapeLine)) ++ margin k), ?_, fun rest => ?_, ?_⟩
    · rw [hdocstring, toList_unlines_docstring]
    · have hmarks : LongLiteral.cut (marks ++ rest) = some ([], rest) := by simp [marks, LongLiteral.cut]
      rw [iterate_indent_escapeLine, List.append_assoc, List.cons_append, List.append_assoc,
        LongLiteral.cut_of_isPlain (by decide), LongLiteral.cut_closed, LongLiteral.cut_plain (hmargin k), hmarks]
      simp
    · have hend := LongLiteral.readFrom_plain (hmargin k) []
      rw [List.append_nil, LongLiteral.readFrom, Option.map_some, List.append_nil] at hend
      rw [iterate_indent_escapeLine, LongLiteral.readFrom_of_ne (by decide), LongLiteral.readFrom_closed, hend]
      simp

/-- Up to a line that is not empty, nothing is cut off. -/
lemma dropEmptyEnd_append {line : String} (hline : line ≠ "") (start rest : List String) :
    dropEmptyEnd (start ++ line :: rest) = start ++ line :: dropEmptyEnd rest := by
  have hshown : line.isEmpty = false := by simpa using hline
  have hkept : (line :: start.reverse).dropWhile (·.isEmpty) = line :: start.reverse := by simp [hshown]
  unfold dropEmptyEnd
  rw [List.reverse_append, List.reverse_cons, List.append_assoc, List.singleton_append, List.dropWhile_append]
  split
  · next hempty =>
    rw [hkept, List.isEmpty_iff.1 hempty]
    simp
  · simp

/-- The documentation of a class is the docstring behind its head, one level deeper. -/
theorem docstring_of_classLines {m : Model} {id : TypeId} {t : WrapperType} {inner : List TypeTree}
    {lines : List String} (h : classLines m (.node id t inner) = .ok lines) (hdoc : t.doc ≠ "") :
    ∃ behind, lines = s!"class {t.name}:" :: (indent (docstring t.doc) ++ behind) := by
  have hnot : t.doc.isEmpty = false := by simpa using hdoc
  unfold classLines at h
  obtain ⟨methods, -, h⟩ := bind_eq_ok.1 h
  obtain ⟨nested, -, h⟩ := bind_eq_ok.1 h
  have hbody (blocks : List (List String)) : ∃ behind, dropEmptyEnd (spaced ([docstring t.doc] ++ blocks)) =
      docstring t.doc ++ behind := by
    refine ⟨dropEmptyEnd ("" :: spaced blocks), ?_⟩
    have hspaced : spaced ([docstring t.doc] ++ blocks) =
        ["\"\"\""] ++ Text.lines (String.ofList (escapeDoc t.doc.toList)) ++ "\"\"\"" :: "" :: spaced blocks := by
      simp [spaced, docstring]
    rw [hspaced, dropEmptyEnd_append (by decide)]
    simp [docstring]
  dsimp only at h
  rw [hnot, if_neg Bool.false_ne_true, List.append_assoc, List.append_assoc] at h
  obtain ⟨behind, hlines⟩ := hbody (t.constructors.map (constructorLines m) ++ (methods ++ nested))
  rw [hlines] at h
  refine ⟨indent behind, ?_⟩
  rw [← Except.ok.inj h, if_neg (by simp [docstring]), indent, indent, indent, List.map_append]

end SchemaAccessors.Render.Python
