/-!
# Blanks and line ends

Documentation text comes from schemas and may hold any character. It is cut into lines at every Unicode
line end, and a line that holds nothing but blanks is written as an empty line.
-/

namespace SchemaAccessors.Text

/-- Blanks: the Unicode spaces, and the control characters that separate lines, fields and records. -/
def isBlank (c : Char) : Bool :=
  let n := c.toNat
  (0x09 ≤ n && n ≤ 0x0d) || (0x1c ≤ n && n ≤ 0x20) || n == 0x85 || n == 0xa0 || n == 0x1680 ||
    (0x2000 ≤ n && n ≤ 0x200a) || n == 0x2028 || n == 0x2029 || n == 0x202f || n == 0x205f || n == 0x3000

/-- Line ends. The pair of a carriage return and a line feed ends one line. -/
def isLineEnd (c : Char) : Bool :=
  let n := c.toNat
  (0x0a ≤ n && n ≤ 0x0d) || (0x1c ≤ n && n ≤ 0x1e) || n == 0x85 || n == 0x2028 || n == 0x2029

theorem isBlank_of_isLineEnd {c : Char} (h : isLineEnd c = true) : isBlank c = true := by
  simp only [isLineEnd, isBlank, Bool.or_eq_true, Bool.and_eq_true, decide_eq_true_eq, beq_iff_eq] at h ⊢
  omega

/-- Lines of `text` after the characters `line`, read backwards, of the line that is open. -/
def linesFrom (line : List Char) : (text : List Char) → List (List Char)
  | [] => if line.isEmpty then [] else [line.reverse]
  | '\r' :: '\n' :: rest => line.reverse :: linesFrom [] rest
  | c :: rest => if isLineEnd c then line.reverse :: linesFrom [] rest else linesFrom (c :: line) rest

/-- The lines of a text, without their ends. A line end at the very end opens no further line. -/
def lines (text : String) : List String :=
  (linesFrom [] text.toList).map String.ofList

/-- The text without the blanks at its end. -/
def trimRight (text : String) : String :=
  String.ofList (text.toList.reverse.dropWhile isBlank).reverse

/-- Whether a line shows nothing. -/
def isBlankLine (line : String) : Bool :=
  line.all isBlank

/-! ## No line holds a line end -/

theorem not_isLineEnd_of_mem_linesFrom {text line l : List Char} {c : Char}
    (hline : ∀ d ∈ line, isLineEnd d = false) (hl : l ∈ linesFrom line text) (hc : c ∈ l) :
    isLineEnd c = false := by
  fun_induction linesFrom line text with
  | case1 line h => simp at hl
  | case2 line h =>
    simp only [List.mem_singleton] at hl
    subst hl
    exact hline c (by simpa using hc)
  | case3 line rest ih =>
    rcases List.mem_cons.1 hl with rfl | hl
    · exact hline c (by simpa using hc)
    · exact ih (by simp) hl
  | case4 line d rest _ hd ih =>
    rcases List.mem_cons.1 hl with rfl | hl
    · exact hline c (by simpa using hc)
    · exact ih (by simp) hl
  | case5 line d rest _ hd ih =>
    refine ih (fun e he => ?_) hl
    rcases List.mem_cons.1 he with rfl | he
    · simpa using hd
    · exact hline e he

end SchemaAccessors.Text
