import SchemaAccessors.Json.Value
import SchemaAccessors.Number.Decimal
import SchemaAccessors.Text.Hex

/-!
# Writing JSON

JSON text is written in ASCII. On one line it has a blank behind each comma and colon; in an indented layout
each element and member stands on a line of its own, two blanks deeper, and only empty arrays and objects
stay on one line. An integer has all of its digits, and is meant to be one that was read, with no more than
`Number.mostDigits` of them.
-/

namespace SchemaAccessors.Json

/-! ## Strings -/

/-- A UTF-16 unit as an escape. -/
def unitEscape (unit : Nat) : List Char :=
  '\\' :: 'u' :: Text.hexDigits 4 unit

/-- How one character stands in a string: itself if it is a visible ASCII character, else a short escape, or
an escape for each of its UTF-16 units. -/
def encodeChar (c : Char) : List Char :=
  let n := c.toNat
  if c = '"' then ['\\', '"']
  else if c = '\\' then ['\\', '\\']
  else if c = '\n' then ['\\', 'n']
  else if c = '\r' then ['\\', 'r']
  else if c = '\t' then ['\\', 't']
  else if c = '\x08' then ['\\', 'b']
  else if c = '\x0c' then ['\\', 'f']
  else if 0x20 ≤ n ∧ n < 0x7f then [c]
  else if n < 0x10000 then unitEscape n
  else unitEscape (0xd800 + (n - 0x10000) / 0x400) ++ unitEscape (0xdc00 + (n - 0x10000) % 0x400)

/-- A text as a JSON string. -/
def encodeString (text : String) : String :=
  String.ofList ('"' :: text.toList.flatMap encodeChar ++ ['"'])

/-! ## Values on one line -/

mutual

/-- A value on one line. -/
def compact : Json → String
  | null => "null"
  | bool b => if b then "true" else "false"
  | int n => toString n
  | float x => x.text Binary64.jsonLayout
  | str s => encodeString s
  | arr xs => "[" ++ String.intercalate ", " (compactElements xs) ++ "]"
  | obj ms => "\x7b" ++ String.intercalate ", " (compactMembers ms) ++ "\x7d"

def compactElements : List Json → List String
  | [] => []
  | x :: xs => compact x :: compactElements xs

def compactMembers : Members → List String
  | [] => []
  | (key, x) :: ms => (encodeString key ++ ": " ++ compact x) :: compactMembers ms

end

/-! ## Values on several lines -/

def indentation (depth : Nat) : String :=
  String.ofList (List.replicate (2 * depth) ' ')

/-- The parts of a collection, each on a line of its own at `depth + 1`, between two marks. -/
def block (depth : Nat) (opening closing : String) (parts : List String) : String :=
  let lineStart := "\n" ++ indentation (depth + 1)
  opening ++ lineStart ++ String.intercalate ("," ++ lineStart) parts ++ "\n" ++ indentation depth ++ closing

mutual

/-- A value that begins on a line at some depth. -/
def indentedAt (depth : Nat) : Json → String
  | arr (x :: xs) => block depth "[" "]" (indentedAt (depth + 1) x :: indentedElements (depth + 1) xs)
  | obj ((key, x) :: ms) =>
    block depth "\x7b" "\x7d"
      ((encodeString key ++ ": " ++ indentedAt (depth + 1) x) :: indentedMembers (depth + 1) ms)
  | arr [] => "[]"
  | obj [] => "\x7b\x7d"
  | null => "null"
  | bool b => if b then "true" else "false"
  | int n => toString n
  | float x => x.text Binary64.jsonLayout
  | str s => encodeString s

def indentedElements (depth : Nat) : List Json → List String
  | [] => []
  | x :: xs => indentedAt depth x :: indentedElements depth xs

def indentedMembers (depth : Nat) : Members → List String
  | [] => []
  | (key, x) :: ms => (encodeString key ++ ": " ++ indentedAt depth x) :: indentedMembers depth ms

end

/-- A value in the indented layout. -/
def indented (value : Json) : String :=
  indentedAt 0 value

end SchemaAccessors.Json
