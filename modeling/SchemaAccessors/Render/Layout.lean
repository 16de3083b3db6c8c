import SchemaAccessors.Table
import SchemaAccessors.Text.Blank

/-!
# Layout of generated code

Code is a list of lines. A block is indented as a whole, except that a line that shows nothing becomes empty.
-/

namespace SchemaAccessors.Render

/-- One level of indentation. -/
def indentUnit : String := "    "

/-- A line one level deeper. -/
def indentLine (line : String) : String :=
  if Text.isBlankLine line then "" else indentUnit ++ line

/-- A block one level deeper. -/
def indent (lines : List String) : List String :=
  lines.map indentLine

/-- The lines without the empty ones at the end. -/
def dropEmptyEnd (lines : List String) : List String :=
  (lines.reverse.dropWhile (·.isEmpty)).reverse

/-- Blocks, each with an empty line behind it. -/
def spaced (blocks : List (List String)) : List String :=
  blocks.flatMap (· ++ [""])

/-- Generated sources under their paths, in the order of generation. -/
abbrev Sources := Table String String

/-- The lines of a text, joined. -/
def unlines (lines : List String) : String :=
  String.intercalate "\n" lines

end SchemaAccessors.Render
