import SchemaAccessors.Output.Check
import SchemaAccessors.Proofs.Printing

/-!
# Levels of indentation

The check of Python code goes through its lines from the top. Outside of docstrings it measures how deep a line
begins; inside them it waits for the closing marks. `scan` is that walk with a bound on the levels, and a block takes
`k` levels (`TakesLevels`) if the walk gets through it, from outside docstrings to outside docstrings, under exactly
the bounds from `k` on. Blocks behind one another take as many levels as the deepest of them, and a block below a
line takes one level more than by itself, so the levels of a module can be read off its classes.
-/

namespace SchemaAccessors

/-- A character that can stand in a line of code: neither a line feed nor a null character. -/
def Text.IsInLine (c : Char) : Prop :=
  c ≠ '\n' ∧ c ≠ '\x00'

instance (c : Char) : Decidable (Text.IsInLine c) :=
  inferInstanceAs (Decidable (_ ∧ _))

open Text (IsInLine IsNumeral)

/-! ## Characters of lines -/

lemma isInLine_of_le {c : Char} (h : 0x20 ≤ c.toNat) : IsInLine c := by
  constructor <;>
  · rintro rfl
    exact absurd h (by decide)

lemma isInLine_of_isAlphanum {c : Char} (h : c.isAlphanum = true) : IsInLine c := by
  constructor <;>
  · rintro rfl
    exact absurd h (by decide)

lemma isInLine_of_isNumeral {c : Char} (h : IsNumeral c) : IsInLine c := by
  constructor <;>
  · rintro rfl
    exact absurd h (by decide)

lemma isInLine_hexDigits (width n : Nat) : ∀ c ∈ Text.hexDigits width n, IsInLine c := by
  have hdigit : ∀ n < 16, IsInLine (Text.hexDigit n) := by decide
  induction width generalizing n with
  | zero => exact fun c hc => (List.not_mem_nil hc).elim
  | succ width ih =>
    rw [Text.hexDigits, List.forall_mem_append, List.forall_mem_singleton]
    exact ⟨ih _, hdigit _ (Nat.mod_lt _ (by omega))⟩

/-- What is escaped in a JSON string is not in it any more. -/
lemma Json.isInLine_encodeString (text : String) : ∀ c ∈ (encodeString text).toList, IsInLine c := by
  have hunit (unit : Nat) : ∀ c ∈ unitEscape unit, IsInLine c := by
    rw [unitEscape, List.forall_mem_cons, List.forall_mem_cons]
    exact ⟨by decide, by decide, isInLine_hexDigits 4 unit⟩
  have hchar (c : Char) : ∀ d ∈ encodeChar c, IsInLine d := by
    unfold encodeChar
    dsimp only
    split_ifs with h₁ h₂ h₃ h₄ h₅ h₆ h₇ hshown
    all_goals first
      | exact hunit _
      | decide
      | skip
    · exact List.forall_mem_singleton.2 (isInLine_of_le hshown.1)
    · exact List.forall_mem_append.2 ⟨hunit _, hunit _⟩
  rw [encodeString, String.toList_ofList, List.forall_mem_append, List.forall_mem_cons]
  refine ⟨⟨by decide, fun c hc => ?_⟩, by decide⟩
  obtain ⟨d, -, hd⟩ := List.mem_flatMap.1 hc
  exact hchar d c hd

/-- No line of a text has a line feed in it. -/
lemma Text.feed_notMem_of_mem_lines {text line : String} (h : line ∈ Text.lines text) : '\n' ∉ line.toList := by
  obtain ⟨l, hl, rfl⟩ := List.mem_map.1 h
  rw [String.toList_ofList]
  intro hfeed
  have hend := Text.not_isLineEnd_of_mem_linesFrom (fun d hd => (List.not_mem_nil hd).elim) hl hfeed
  exact absurd hend (by decide)

namespace Render

/-! ## Walking through lines -/

/-- How many blanks a line begins with. -/
def depth (line : String) : Nat :=
  (line.toList.takeWhile (· = ' ')).length

lemma isBlankLine_eq (line : String) : Text.isBlankLine line = line.toList.all Text.isBlank := by
  simp [Text.isBlankLine]

lemma isBlankLine_of_mem {line : String} {c : Char} (hc : c ∈ line.toList) (hshown : Text.isBlank c = false) :
    Text.isBlankLine line = false := by
  rw [isBlankLine_eq, List.all_eq_false]
  exact ⟨c, hc, by simp [hshown]⟩

/-- Nothing but empty lines is cut off at the end. -/
lemma exists_dropEmptyEnd (lines : List String) :
    ∃ empty, lines = dropEmptyEnd lines ++ empty ∧ ∀ line ∈ empty, line = "" := by
  refine ⟨(lines.reverse.takeWhile (·.isEmpty)).reverse, ?_, fun line hline => ?_⟩
  · rw [dropEmptyEnd, ← List.reverse_append, List.takeWhile_append_dropWhile, List.reverse_reverse]
  · exact String.isEmpty_iff.1 (List.mem_takeWhile_imp (List.mem_reverse.1 hline))

lemma isBlankLine_of_head? {line : String} {c : Char} (hfirst : line.toList.head? = some c)
    (hshown : Text.isBlank c = false) : Text.isBlankLine line = false :=
  isBlankLine_of_mem (List.mem_of_head? hfirst) hshown

/-- A line that begins with a character that shows is indented. -/
lemma indent_of_head? {line : String} {c : Char} (hfirst : line.toList.head? = some c)
    (hshown : Text.isBlank c = false) : indent [line] = [indentUnit ++ line] := by
  rw [indent, List.map_singleton, indentLine, isBlankLine_of_head? hfirst hshown]
  rfl

/-- Whether a docstring is open behind some lines, if no statement among them begins `levels` levels deep. -/
def scan (levels : Nat) : (inDoc : Bool) → List String → Option Bool
  | inDoc, [] => some inDoc
  | true, line :: rest => scan levels (!Output.isDocMark line.toList) rest
  | false, line :: rest =>
    if levels * indentUnit.length ≤ depth line && !Text.isBlankLine line then none
    else scan levels (Output.isDocMark line.toList) rest

/-- The check finds no statement too deep if the walk with its bound gets through. -/
lemma firstTooDeep_eq_none_iff {inDoc : Bool} {number : Nat} {lines : List String} :
    Output.firstTooDeep inDoc number (lines.map String.toList) = none ↔
      (scan (Output.mostLevels + 1) inDoc lines).isSome = true := by
  induction lines generalizing inDoc number with
  | nil => cases inDoc <;> simp [Output.firstTooDeep, scan]
  | cons line rest ih =>
    cases inDoc with
    | true => rw [List.map_cons, Output.firstTooDeep, scan, ih]
    | false =>
      have hdeep : (Output.isTooDeep line.toList && !Text.isBlankLine (String.ofList line.toList)) =
          (decide ((Output.mostLevels + 1) * indentUnit.length ≤ depth line) && !Text.isBlankLine line) := by
        rw [String.ofList_toList]
        rfl
      rw [List.map_cons, Output.firstTooDeep, scan, hdeep]
      split
      · simp
      · exact ih

section Scan

variable {levels : Nat} {inDoc : Bool}

lemma scan_append (a b : List String) :
    scan levels inDoc (a ++ b) = (scan levels inDoc a).bind fun inDoc => scan levels inDoc b := by
  induction a generalizing inDoc with
  | nil => cases inDoc <;> rfl
  | cons line a ih =>
    cases inDoc with
    | true => exact ih
    | false =>
      rw [List.cons_append, scan, scan]
      split
      · rfl
      · exact ih

lemma isDocMark_of_blank {line : String} (h : Text.isBlankLine line = true) :
    Output.isDocMark line.toList = false := by
  rw [isBlankLine_eq, List.all_eq_true] at h
  by_contra hmark
  have hdrop : line.toList.dropWhile (· = ' ') = "\"\"\"".toList := by simpa [Output.isDocMark] using hmark
  have hmem : '"' ∈ line.toList.dropWhile (· = ' ') := by
    rw [hdrop]
    decide
  exact absurd (h _ (List.dropWhile_subset _ hmem)) (by decide)

/-- One level more leaves room for one level more. -/
lemma scan_indent (lines : List String) : scan (levels + 1) inDoc (indent lines) = scan levels inDoc lines := by
  have hmark (line : String) : Output.isDocMark (indentLine line).toList = Output.isDocMark line.toList := by
    unfold indentLine
    split
    · next hblank =>
      rw [isDocMark_of_blank hblank]
      decide
    · rw [String.toList_append]
      rfl
  have hdeep (line : String) :
      (decide ((levels + 1) * indentUnit.length ≤ depth (indentLine line)) && !Text.isBlankLine (indentLine line)) =
        (decide (levels * indentUnit.length ≤ depth line) && !Text.isBlankLine line) := by
    unfold indentLine
    split
    · next hblank =>
      have hempty : Text.isBlankLine "" = true := by
        rw [isBlankLine_eq]
        decide
      rw [hblank, hempty, Bool.not_true, Bool.and_false, Bool.and_false]
    · next hshown =>
      have hdepth : depth (indentUnit ++ line) = depth line + 4 := by
        unfold depth
        rw [String.toList_append]
        rfl
      have hunit : indentUnit.length = 4 := by decide
      have hnot : Text.isBlankLine (indentUnit ++ line) = Text.isBlankLine line := by
        have hblanks : indentUnit.toList.all Text.isBlank = true := by decide
        rw [isBlankLine_eq, isBlankLine_eq, String.toList_append, List.all_append, hblanks, Bool.true_and]
      rw [hdepth, hnot, hunit]
      congr 1
      exact decide_eq_decide.2 (by omega)
  induction lines generalizing inDoc with
  | nil => cases inDoc <;> rfl
  | cons line lines ih =>
    show scan (levels + 1) inDoc (indentLine line :: indent lines) = _
    cases inDoc with
    | true => rw [scan, scan, hmark, ih]
    | false => rw [scan, scan, hdeep, hmark, ih]

lemma scan_empty {lines : List String} (h : ∀ line ∈ lines, line = "") : scan levels inDoc lines = some inDoc := by
  induction lines generalizing inDoc with
  | nil => cases inDoc <;> rfl
  | cons line lines ih =>
    obtain ⟨rfl, hlines⟩ := List.forall_mem_cons.1 h
    have hblank : Text.isBlankLine "" = true := by
      rw [isBlankLine_eq]
      decide
    have hmark : Output.isDocMark "".toList = false := by decide
    cases inDoc with
    | true => rw [scan, hmark, Bool.not_false, ih hlines]
    | false => rw [scan, hblank, hmark, Bool.not_true, Bool.and_false, if_neg Bool.false_ne_true, ih hlines]

/-- Inside a docstring, a line without its marks is passed over. -/
lemma scan_doc {lines : List String} (h : ∀ line ∈ lines, Output.isDocMark line.toList = false) :
    scan levels true lines = some true := by
  induction lines with
  | nil => rfl
  | cons line lines ih =>
    obtain ⟨hline, hlines⟩ := List.forall_mem_cons.1 h
    rw [scan, hline, Bool.not_false, ih hlines]

end Scan

/-! ## Blocks -/

/-- The walk gets through some lines, from outside docstrings to outside docstrings, under the bounds from `k` on
and no others. -/
def TakesLevels (k : Nat) (lines : List String) : Prop :=
  ∀ levels, scan levels false lines = if k ≤ levels then some false else none

namespace TakesLevels

lemma of_empty {lines : List String} (h : ∀ line ∈ lines, line = "") : TakesLevels 0 lines := fun levels => by
  rw [scan_empty h, if_pos (Nat.zero_le levels)]

lemma append {j k : Nat} {a b : List String} (ha : TakesLevels j a) (hb : TakesLevels k b) :
    TakesLevels (max j k) (a ++ b) := by
  intro levels
  rw [scan_append, ha levels]
  by_cases hj : j ≤ levels
  · rw [if_pos hj, Option.bind_some, hb levels]
    simp only [Nat.max_le, hj, true_and]
  · rw [if_neg hj, if_neg fun hmax => hj (Nat.max_le.1 hmax).1]
    rfl

/-- A line that begins with a sign other than a quotation mark takes one level. -/
lemma statement {line : String} {c : Char} (hfirst : line.toList.head? = some c) (hshown : Text.isBlank c = false)
    (hquote : c ≠ '"') : TakesLevels 1 [line] := by
  obtain ⟨rest, hline⟩ := List.head?_eq_some_iff.1 hfirst
  have hblank : c ≠ ' ' := by
    rintro rfl
    exact absurd hshown (by decide)
  have hdepth : depth line = 0 := by simp [depth, hline, hblank]
  have hnot := isBlankLine_of_head? hfirst hshown
  have hmark : Output.isDocMark line.toList = false := by simp [Output.isDocMark, hline, hblank, hquote]
  have hunit : indentUnit.length = 4 := by decide
  intro levels
  rw [scan, hdepth, hnot, hmark, hunit]
  cases levels with
  | zero => rfl
  | succ levels => simp [scan]

lemma statements {lines : List String} (hne : lines ≠ []) (h : ∀ line ∈ lines, TakesLevels 1 [line]) :
    TakesLevels 1 lines := by
  induction lines with
  | nil => exact absurd rfl hne
  | cons line rest ih =>
    obtain ⟨hline, hrest⟩ := List.forall_mem_cons.1 h
    cases rest with
    | nil => exact hline
    | cons next rest => exact hline.append (ih (List.cons_ne_nil _ _) hrest)

/-- A block below a statement takes one level more. -/
lemma block {k : Nat} {line : String} {body : List String} (hline : TakesLevels 1 [line])
    (hbody : TakesLevels k body) : TakesLevels (k + 1) (line :: indent body) := by
  intro levels
  have happend : scan levels false (line :: indent body) = _ := scan_append [line] (indent body)
  rw [happend, hline levels]
  cases levels with
  | zero => rfl
  | succ levels =>
    rw [if_pos (by omega), Option.bind_some, scan_indent, hbody levels]
    simp only [Nat.add_le_add_iff_right]

lemma dropEmptyEnd {k : Nat} {lines : List String} (h : TakesLevels k lines) :
    TakesLevels k (Render.dropEmptyEnd lines) := by
  obtain ⟨empty, hsplit, hempty⟩ := exists_dropEmptyEnd lines
  intro levels
  have hlevels := h levels
  rw [hsplit, scan_append] at hlevels
  rw [← hlevels]
  cases scan levels false (Render.dropEmptyEnd lines) with
  | none => rfl
  | some inDoc => rw [Option.bind_some, scan_empty hempty]

/-- A docstring takes one level, whatever is in it but its own marks. -/
lemma docstring {lines : List String} (h : ∀ line ∈ lines, Output.isDocMark line.toList = false) :
    TakesLevels 1 (["\"\"\""] ++ lines ++ ["\"\"\""]) := by
  have hmark : Output.isDocMark "\"\"\"".toList = true := by decide
  have hdepth : depth "\"\"\"" = 0 := by decide
  have hshown : Text.isBlankLine "\"\"\"" = false := by
    rw [isBlankLine_eq]
    decide
  have hunit : indentUnit.length = 4 := by decide
  intro levels
  have hopening : scan levels false ["\"\"\""] = if 1 ≤ levels then some true else none := by
    rw [scan, hdepth, hshown, hmark, hunit]
    cases levels with
    | zero => rfl
    | succ levels => simp [scan]
  have hclosing : scan levels true ["\"\"\""] = some false := by
    rw [scan, hmark]
    rfl
  rw [scan_append, scan_append, hopening]
  split
  · rw [Option.bind_some, scan_doc h, Option.bind_some, hclosing]
  · rfl

end TakesLevels

/-! ## Lines with their ends -/

/-- The text of some lines, each with its end. -/
def closed (lines : List String) : List Char :=
  lines.flatMap fun line => line.toList ++ ['\n']

lemma closed_append (a b : List String) : closed (a ++ b) = closed a ++ closed b :=
  List.flatMap_append

lemma closed_unlines {lines : List String} (h : lines ≠ []) : closed lines = (unlines lines).toList ++ ['\n'] := by
  unfold unlines
  induction lines with
  | nil => exact absurd rfl h
  | cons line rest ih =>
    cases rest with
    | nil => simp [closed]
    | cons next rest =>
      have hrest := ih (List.cons_ne_nil _ _)
      show line.toList ++ ['\n'] ++ closed (next :: rest) = _
      rw [hrest, String.intercalate_cons_cons, String.toList_append, String.toList_append]
      simp

/-- A text is cut into its lines again, and an empty line behind them. -/
lemma splitOn_closed {lines : List String} (h : ∀ line ∈ lines, '\n' ∉ line.toList) :
    (closed lines).splitOn '\n' = (lines ++ [""]).map String.toList := by
  induction lines with
  | nil => rfl
  | cons line rest ih =>
    obtain ⟨hline, hrest⟩ := List.forall_mem_cons.1 h
    have hcons : closed (line :: rest) = line.toList ++ '\n' :: closed rest := by simp [closed]
    rw [hcons, List.splitOn_append_cons_self_of_not_mem hline, ih hrest]
    rfl

/-- Code passes the check if it takes no more levels than Python admits, and only then. -/
theorem checkPython_closed {lines : List String} {k : Nat} (hlines : ∀ line ∈ lines, ∀ c ∈ line.toList, IsInLine c)
    (hlevels : TakesLevels k lines) {code : String} (hcode : code.toList = closed lines) :
    Output.checkPython code = .ok () ↔ k ≤ Output.mostLevels + 1 := by
  have hnull : '\x00' ∉ code.toList := by
    rw [hcode]
    intro hmem
    obtain ⟨line, hline, hc⟩ := List.mem_flatMap.1 hmem
    rcases List.mem_append.1 hc with hc | hc
    · exact (hlines line hline _ hc).2 rfl
    · simp at hc
  have hsplit := splitOn_closed fun line hline hmem => (hlines line hline _ hmem).1 rfl
  have hscan : scan (Output.mostLevels + 1) false (lines ++ [""]) =
      if k ≤ Output.mostLevels + 1 then some false else none := by
    have hempty : TakesLevels 0 [""] := .of_empty (List.forall_mem_singleton.2 rfl)
    rw [hlevels.append hempty, Nat.max_zero]
  have hdeep : Output.firstTooDeep false 1 ((lines ++ [""]).map String.toList) = none ↔ _ := firstTooDeep_eq_none_iff
  rw [hscan, ← hsplit, ← hcode] at hdeep
  unfold Output.checkPython
  dsimp only
  rw [if_neg (by simpa using hnull)]
  cases hfirst : Output.firstTooDeep false 1 (code.toList.splitOn '\n') with
  | none =>
    have hfits := hdeep.1 hfirst
    split at hfits
    · next hle => exact iff_of_true rfl hle
    · cases hfits
  | some number =>
    rw [hfirst] at hdeep
    refine iff_of_false nofun fun hle => ?_
    rw [if_pos hle] at hdeep
    exact absurd (hdeep.2 rfl) nofun

end Render

end SchemaAccessors
