import SchemaAccessors.Text.CodePoint
import SchemaAccessors.Uri.Percent

/-!
# JSON Pointers in URIs

The URI of a subschema is the URI of its parent and one segment per keyword and key, behind a `#`. A segment
is escaped twice: tildes and slashes as JSON Pointer has it, then octets that may not stand in a URI. A key
may be empty, and an empty segment would be lost, so `~2` stands for it.
-/

namespace SchemaAccessors.Uri

/-- Stands for an empty key. -/
def emptySegment : List Char := ['~', '2']

/-- Characters of a segment that are not escaped. -/
def isSegmentSafe (c : Char) : Bool :=
  isUnreserved c || c = '!' || c = '*' || c = '\x27' || c = '(' || c = ')'

def escapeTilde (segment : List Char) : List Char :=
  segment.flatMap fun c => if c = '~' then ['~', '0'] else if c = '/' then ['~', '1'] else [c]

def unescapeTilde : List Char → List Char
  | '~' :: '0' :: rest => '~' :: unescapeTilde rest
  | '~' :: '1' :: rest => '/' :: unescapeTilde rest
  | c :: rest => c :: unescapeTilde rest
  | [] => []

/-- A key as a segment. -/
def encodeSegment (key : List Char) : List Char :=
  match escape isSegmentSafe (escapeTilde key) with
  | [] => emptySegment
  | segment => segment

/-- The key that a segment stands for. -/
def decodeSegment (segment : List Char) : List Char :=
  let text := unescape segment
  if text = emptySegment then [] else unescapeTilde text

/-- Appends a key to the fragment of a URI. -/
def append (uri key : String) : String :=
  let uri := uri.toList
  let uri := if uri.contains '#' then uri else uri ++ ['#']
  let uri := if uri.getLast? = some '/' then uri else uri ++ ['/']
  String.ofList (uri ++ encodeSegment key.toList)

/-- A key that was read as one that can be appended. The octets of a segment are UTF-8, which a surrogate does not
have; it is met behind the escapes of the tildes and slashes before it. -/
def readKey (key : CodePoints) : Except Unencodable String :=
  match key.characters? with
  | some chars => .ok (String.ofList chars)
  | none =>
    let escaped := key.flatMap fun p => if p = .char '~' ∨ p = .char '/' then [.char '~', p] else [p]
    .error (CodePoints.fault escaped)

/-- The keys of a pointer. What stands before the first slash is no key. -/
def pointer (fragment : String) : List String :=
  (fragment.toList.splitOn '/').tail.map fun segment => String.ofList (decodeSegment segment)

end SchemaAccessors.Uri
