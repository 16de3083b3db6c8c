import SchemaAccessors.Failure
import SchemaAccessors.Json.Value
import SchemaAccessors.Uri.Percent

/-!
# Where documents come from

A reference may lead to a document that has not been read. Some documents are given under their URIs; any
other URI has to name a file.
-/

namespace SchemaAccessors

/-- The documents given under their URIs, the files, and the directory that relative paths begin in. -/
structure Loader where
  documents : List (String × Json)
  files : Files.Tree
  directory : Files.Path

namespace Loader

/-- Reads every line end as a line feed. -/
def unifyLineEnds : List Char → List Char
  | '\r' :: '\n' :: rest => '\n' :: unifyLineEnds rest
  | '\r' :: rest => '\n' :: unifyLineEnds rest
  | c :: rest => c :: unifyLineEnds rest
  | [] => []

/-- The text of a file. -/
def textOf (content : ByteArray) : Except Failure String :=
  match String.fromUTF8? content with
  | some text => .ok (String.ofList (unifyLineEnds text.toList))
  | none => .error .notText

/-- The document in the file that a `file:` URI names, as it is read. -/
def readFile (l : Loader) (uri : String) : Except Failure Decoded := do
  let parts ← (Uri.parts [] uri.toList).mapError .badUri
  if parts.scheme ≠ "file".toList then throw (.notFetchable uri)
  let path ← (Files.Path.ofString (String.ofList (Uri.unescape parts.path))).passable
  let content ← (l.files.readFrom l.directory path).mapError (.unreadable uri path.text)
  let text ← textOf content
  (Json.decode text).mapError (.ofReadError (.notJson uri))

def fetchFile (l : Loader) (uri : String) : Except Failure Json :=
  (l.readFile uri).map (·.json)

/-- The document at a URI. -/
def fetch (l : Loader) (uri : String) : Except Failure Json :=
  match l.documents.lookup uri with
  | some document => .ok document
  | none => l.fetchFile uri

/-- The URI of a file. -/
def fileUri (path : Files.Path) : String :=
  String.ofList ("file://".toList ++ Uri.escape (fun c => Uri.isUnreserved c || c = '/') path.text.toList)

/-! ## How much there is to load

Each given document is loaded once at most. A file may be reached under several URIs, one for each way to
write its path; the bound leaves room for as many as there are octets in all files and in the longest path. -/

/-- Octets of a file and one more; one for a directory. -/
def nodeWeight : Files.Node → Nat
  | .file content => content.size + 1
  | .directory => 1

/-- Octets of all files, and one for each place. -/
def fileWeight (l : Loader) : Nat :=
  l.files.nodes.foldr (fun n total => nodeWeight n.2 + total) 0

/-- A bound on how many nodes the documents have that the loader supplies. -/
def capacity (l : Loader) : Nat :=
  l.documents.foldr (fun d total => d.2.size + total) (l.fileWeight * (l.fileWeight + Files.longestPath))

end Loader

end SchemaAccessors
