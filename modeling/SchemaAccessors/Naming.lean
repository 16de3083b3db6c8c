import SchemaAccessors.Number.Digits
import SchemaAccessors.Text.Case
import SchemaAccessors.Uri.Pointer

/-!
# Names

Type and member names come from URIs and property keys. Only ASCII letters and digits are kept, words begin
with a capital, and no name is empty or begins with a digit. A name that is taken is varied by counting up
the number at its end.
-/

namespace SchemaAccessors.Naming

/-! ## Words -/

/-- Runs of ASCII letters and digits, after the characters `word`, held backwards, of an open one. -/
def wordsFrom (word : List Char) : List Char → List (List Char)
  | [] => if word.isEmpty then [] else [word.reverse]
  | c :: rest =>
    if c.isAlphanum then wordsFrom (c :: word) rest
    else if word.isEmpty then wordsFrom [] rest
    else word.reverse :: wordsFrom [] rest

def capitalize : List Char → List Char
  | [] => []
  | c :: rest => c.toUpper :: rest

/-- The words of a text in one, each with a capital in front and otherwise as it is. -/
def camelChars (text : List Char) : List Char :=
  (wordsFrom [] text).flatMap capitalize

/-- The words of a text in one, each with a capital in front and otherwise as it is. -/
def camel (text : String) : String :=
  String.ofList (camelChars text.toList)

/-- Puts an underscore between a small letter or digit and a capital. -/
def separateCapitals : List Char → List Char
  | a :: b :: rest =>
    if (a.isLower || a.isDigit) && b.isUpper then a :: '_' :: separateCapitals (b :: rest)
    else a :: separateCapitals (b :: rest)
  | short => short

/-- The text in lower case, with an underscore where a word began with a capital. -/
def snake (text : String) : String :=
  Text.lower (String.ofList (separateCapitals text.toList))

/-- The text with its first character in lower case. -/
def lowerFirst (text : String) : String :=
  match text.toList with
  | [] => ""
  | c :: rest => String.ofList (Text.lowerFrom [] [c] ++ rest)

/-! ## Identifiers -/

/-- The name of what has no letter and no digit in its own. -/
def fallback : List Char := "Schema".toList

/-- Stands before a digit. -/
def digitStem : List Char := "Item".toList

def identifierChars (text : List Char) : List Char :=
  match camelChars text with
  | [] => fallback
  | c :: rest => if c.isDigit then digitStem ++ c :: rest else c :: rest

/-- An identifier for any text: a capital, then ASCII letters and digits. -/
def identifier (text : String) : String :=
  String.ofList (identifierChars text.toList)

/-- The last segment of a URI as the key it stands for, up to its first dot. -/
def leaf (uri : String) : String :=
  let last := (uri.toList.reverse.takeWhile (· ≠ '/')).reverse
  String.ofList ((Uri.decodeSegment (last.dropWhile (· = '#'))).takeWhile (· ≠ '.'))

/-- The name of the type for the schema at a URI, where it is free. -/
def typeName (uri : String) : String :=
  identifier (leaf uri)

/-! ## Variation -/

/-- The text before the digits at its end, and those digits. -/
def cutNumber (text : List Char) : List Char × List Char :=
  let backwards := text.reverse
  ((backwards.dropWhile Char.isDigit).reverse, (backwards.takeWhile Char.isDigit).reverse)

/-- The text before the number at the end of a name, and the digits of the number. A line feed may follow it. -/
def ending (name : List Char) : List Char × List Char :=
  cutNumber (if name.getLast? = some '\n' then name.dropLast else name)

/-- Counts up the number at the end, or appends a two. -/
def varyChars (name : List Char) : List Char :=
  match ending name with
  | (_, []) => name ++ ['2']
  | (stem, digits) => stem ++ Nat.toDigits 10 (Number.ofDigits digits + 1)

/-- The variation of a name, with numbers of any size. -/
def vary (name : String) : String :=
  String.ofList (varyChars name.toList)

/-- The next name to try where a name is taken: its variation, unless a number in it has too many digits. -/
def next (name : String) : Except Number.Overlong String :=
  match ending name.toList with
  | (_, []) => .ok (vary name)
  | (stem, digits) => do
    let number ← Number.write ((← Number.read digits) + 1)
    return String.ofList (stem ++ number)

/-- The next name is the variation, if there is one. -/
theorem eq_vary_of_next {name name' : String} (h : next name = .ok name') : name' = vary name := by
  unfold next at h
  cases he : ending name.toList with
  | mk stem digits =>
    cases digits with
    | nil => simpa [he, eq_comm] using h
    | cons d digits =>
      rw [he] at h
      cases hr : Number.read (d :: digits) with
      | error o => simp [hr, bind, Except.bind] at h
      | ok n =>
        cases hw : Number.write (n + 1) with
        | error o => simp [hr, hw, bind, Except.bind] at h
        | ok text =>
          simp only [hr, hw, bind, Except.bind, pure, Except.pure, Except.ok.injEq] at h
          rw [← h, vary, varyChars, he, Number.eq_of_write hw, Number.eq_of_read hr]

end SchemaAccessors.Naming
