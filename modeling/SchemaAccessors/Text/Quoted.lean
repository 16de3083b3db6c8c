import SchemaAccessors.Text.Case
import SchemaAccessors.Text.Hex
import SchemaAccessors.Text.PrintableTable

/-!
# Quoted text

How messages and documentation show a text taken from a schema: between apostrophes, or between quotation
marks when it holds an apostrophe and no quotation mark. Characters that do not show are written as escapes.
-/

namespace SchemaAccessors.Text

/-- Whether a character shows when it is printed. -/
def isPrintable (c : Char) : Bool :=
  let n := c.toNat
  if n < 0x7f then 0x20 ≤ n else !inRanges hiddenRanges n

/-- How one character stands between two marks. -/
def quotedChar (mark c : Char) : List Char :=
  let n := c.toNat
  if c = mark ∨ c = '\\' then ['\\', c]
  else if c = '\n' then ['\\', 'n']
  else if c = '\r' then ['\\', 'r']
  else if c = '\t' then ['\\', 't']
  else if isPrintable c then [c]
  else if n < 0x100 then '\\' :: 'x' :: hexDigits 2 n
  else if n < 0x10000 then '\\' :: 'u' :: hexDigits 4 n
  else '\\' :: 'U' :: hexDigits 8 n

/-- The mark that stands on both sides of a text. -/
def quotationMark (text : List Char) : Char :=
  if text.contains '\x27' && !text.contains '"' then '"' else '\x27'

/-- A text as messages show it. -/
def quoted (text : String) : String :=
  let mark := quotationMark text.toList
  String.ofList (mark :: text.toList.flatMap (quotedChar mark) ++ [mark])

/-- A list of plain words as documentation shows it. -/
def quotedList (words : List String) : String :=
  "[" ++ String.intercalate ", " (words.map quoted) ++ "]"

end SchemaAccessors.Text
