import SchemaAccessors.Failure
import SchemaAccessors.Render.Language

/-!
# Checks of generated code

Code is looked at once more before it takes the place of a file. Java code has to define a type and to close
each brace that it opens. Generated Python code is well formed, except that Python admits no null character
anywhere and no more than 99 levels of indentation.
-/

namespace SchemaAccessors.Output

/-! ## Python -/

/-- The levels of indentation that Python admits. -/
def mostLevels : Nat := 99

/-- Whether a line begins deeper than Python admits. -/
def isTooDeep (line : List Char) : Bool :=
  (mostLevels + 1) * Render.indentUnit.length ≤ (line.takeWhile (· = ' ')).length

/-- Whether a line opens or closes a docstring. -/
def isDocMark (line : List Char) : Bool :=
  (line.dropWhile (· = ' ')) = "\"\"\"".toList

/-- The number of the first line, counted from `number` on, where a statement begins too deep. Lines inside a
docstring begin none; the line that opens it does. -/
def firstTooDeep : (inDoc : Bool) → (number : Nat) → List (List Char) → Option Nat
  | _, _, [] => none
  | true, number, line :: rest => firstTooDeep (!isDocMark line) (number + 1) rest
  | false, number, line :: rest =>
    if isTooDeep line && !Text.isBlankLine (String.ofList line) then some number
    else firstTooDeep (isDocMark line) (number + 1) rest

def checkPython (code : String) : Except Failure Unit :=
  let text := code.toList
  if text.contains '\x00' then .error .nullInCode
  else match firstTooDeep false 1 (text.splitOn '\n') with
    | some number => .error (.tooDeep number)
    | none => .ok ()

/-! ## Java -/

/-- Whether a text holds another. -/
def holds (part : List Char) : List Char → Bool
  | [] => part.isEmpty
  | c :: rest => part.isPrefixOf (c :: rest) || holds part rest

def checkJava (code : String) : Except Failure Unit :=
  let text := code.toList
  let opening := text.count '\x7b'
  let closing := text.count '\x7d'
  if !holds "class ".toList text then .error .noTypeDefinitions
  else if opening ≠ closing then .error (.unbalancedBraces opening closing)
  else .ok ()

/-- Checks code. Code in a language without checks passes. -/
def check : Option Language → String → Except Failure Unit
  | some .python, code => checkPython code
  | some .java, code => checkJava code
  | none, _ => .ok ()

theorem checkJava_eq_ok_iff {code : String} :
    checkJava code = .ok ()
      ↔ holds "class ".toList code.toList ∧ code.toList.count '\x7b' = code.toList.count '\x7d' := by
  simp only [checkJava]
  cases holds "class ".toList code.toList
  · simp
  · by_cases h : code.toList.count '\x7b' = code.toList.count '\x7d' <;> simp [h]

end SchemaAccessors.Output
