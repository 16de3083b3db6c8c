import SchemaAccessors.Json.Value
import SchemaAccessors.Number.Decimal
import SchemaAccessors.Number.Digits
import SchemaAccessors.Text.Quoted

/-!
# Values in messages

A message shows a JSON value on one line: texts are quoted as messages quote them, and the three words are
`None`, `True` and `False`. The kinds of values have names of their own.
-/

namespace SchemaAccessors.Json

mutual

/-- A value as messages show it. -/
def inline : Json → String
  | null => "None"
  | bool b => if b then "True" else "False"
  | int n => toString n
  | float x => x.text Binary64.plainLayout
  | str s => Text.quoted s
  | arr xs => "[" ++ String.intercalate ", " (inlineElements xs) ++ "]"
  | obj ms => "\x7b" ++ String.intercalate ", " (inlineMembers ms) ++ "\x7d"

def inlineElements : List Json → List String
  | [] => []
  | x :: xs => inline x :: inlineElements xs

def inlineMembers : Members → List String
  | [] => []
  | (key, x) :: ms => (Text.quoted key ++ ": " ++ inline x) :: inlineMembers ms

end

/-! An integer is shown with all of its digits, and there is a bound on these, to which values that are read from a text
keep. Only where a `type` is refused is the bound looked at before a value is shown. -/

mutual

/-- Whether no integer in a value has too many digits to be shown. -/
def showable : Json → Bool
  | int n => (Number.write n.natAbs).toBool
  | arr xs => showableElements xs
  | obj ms => showableMembers ms
  | _ => true

def showableElements : List Json → Bool
  | [] => true
  | x :: xs => showable x && showableElements xs

def showableMembers : Members → Bool
  | [] => true
  | (_, x) :: ms => showable x && showableMembers ms

end

/-- A value as a part of running text: a text stands there as it is. -/
def plain : Json → String
  | str s => s
  | value => value.inline

/-- What messages call the kind of a value. -/
def kindName : Json → String
  | null => "NoneType"
  | bool _ => "bool"
  | int _ => "int"
  | float _ => "float"
  | str _ => "str"
  | arr _ => "list"
  | obj _ => "dict"

end SchemaAccessors.Json
