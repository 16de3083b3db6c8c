import SchemaAccessors.Uri.Authority

/-!
# URI references

A reference is taken apart into scheme, authority, path, parameters, query and fragment, and joined to a base
URI. Taking apart is lenient: blanks and controls in front are dropped, and so are tabs and line ends
anywhere. Putting together drops marks with nothing behind them, so a URI may come back changed.
-/

namespace SchemaAccessors.Uri

/-- The parts of a URI. A part that is missing is empty. -/
structure Parts where
  scheme : List Char
  authority : List Char
  path : List Char
  params : List Char
  query : List Char
  fragment : List Char
deriving DecidableEq, Repr

/-! ## Schemes

What a reference may do depends on its scheme; the empty scheme stands for none. -/

/-- Schemes in which a reference may be relative. -/
def relativeSchemes : List String :=
  ["", "ftp", "http", "gopher", "nntp", "imap", "wais", "file", "https", "shttp", "mms", "prospero", "rtsp",
    "rtspu", "sftp", "svn", "svn+ssh", "ws", "wss"]

/-- Schemes with an authority. -/
def authoritySchemes : List String :=
  ["", "ftp", "http", "gopher", "nntp", "telnet", "imap", "wais", "file", "mms", "https", "shttp", "snews",
    "prospero", "rtsp", "rtspu", "rsync", "svn", "svn+ssh", "sftp", "nfs", "git", "git+ssh", "ws", "wss"]

/-- Schemes whose last path segment may have parameters. -/
def paramsSchemes : List String :=
  ["", "ftp", "hdl", "prospero", "http", "imap", "https", "shttp", "rtsp", "rtspu", "sip", "sips", "mms", "sftp",
    "tel"]

def schemeIn (schemes : List String) (scheme : List Char) : Bool :=
  schemes.contains (String.ofList scheme)

/-- Characters of a scheme. -/
def isSchemeChar (c : Char) : Bool :=
  c.isAlphanum || c = '+' || c = '-' || c = '.'

/-! ## Taking apart -/

/-- Splits off the scheme: a letter and scheme characters before the first colon. -/
def cutScheme (text : List Char) : Option (List Char × List Char) :=
  match cut ':' text with
  | (c :: rest, some after) =>
    if c.isAlpha && rest.all isSchemeChar then some ((c :: rest).map Char.toLower, after) else none
  | _ => none

/-- Splits off the authority, which begins behind two slashes and ends before the next delimiter. -/
def cutAuthority : List Char → List Char × List Char
  | '/' :: '/' :: rest => rest.span fun c => c ≠ '/' && c ≠ '?' && c ≠ '#'
  | text => ([], text)

/-- Splits off the parameters, which begin at the first semicolon of the last segment. -/
def cutParams (path : List Char) : List Char × List Char :=
  let last := (path.reverse.takeWhile (· ≠ '/')).reverse
  match cut ';' last with
  | (before, some params) => (path.take (path.length - last.length) ++ before, params)
  | (_, none) => (path, [])

/-- The text without what a reader of URIs overlooks. -/
def overlook (text : List Char) : List Char :=
  (text.dropWhile fun c => c.toNat ≤ 0x20).filter fun c => c ≠ '\t' && c ≠ '\r' && c ≠ '\n'

/-- The parts of a reference; one without a scheme has the scheme `scheme`. -/
def parts (scheme text : List Char) : Except Fault Parts :=
  let (scheme, rest) := (cutScheme (overlook text)).getD (scheme, overlook text)
  let (authority, rest) := cutAuthority rest
  match authorityFault? authority with
  | some fault => .error fault
  | none =>
    let (rest, fragment) := cut '#' rest
    let (path, query) := cut '?' rest
    let (path, params) := if schemeIn paramsSchemes scheme then cutParams path else (path, [])
    .ok ⟨scheme, authority, path, params, query.getD [], fragment.getD []⟩

/-! ## Putting together -/

/-- A part behind its mark, or nothing if it is empty. -/
def behind (mark : Char) (part : List Char) : List Char :=
  if part.isEmpty then [] else mark :: part

/-- The path behind the authority. Two slashes go before an authority, and before an empty one where the
scheme has authorities, unless the path has them already. -/
def Parts.located (p : Parts) : List Char :=
  let path := p.path ++ behind ';' p.params
  if !p.authority.isEmpty
      || (!p.scheme.isEmpty && schemeIn authoritySchemes p.scheme && !(['/', '/'].isPrefixOf path)) then
    let rooted := if path.isEmpty || path.head? = some '/' then path else '/' :: path
    '/' :: '/' :: p.authority ++ rooted
  else path

/-- The URI with the given parts. -/
def Parts.toList (p : Parts) : List Char :=
  (if p.scheme.isEmpty then [] else p.scheme ++ [':']) ++ p.located ++ behind '?' p.query
    ++ behind '#' p.fragment

/-- The URI without its fragment, and the fragment. A URI without a `#` is left as it is. -/
def defragment (uri : String) : Except Fault (String × String) :=
  if uri.toList.contains '#' then do
    let p ← parts [] uri.toList
    return (String.ofList { p with fragment := [] }.toList, String.ofList p.fragment)
  else return (uri, "")

/-! ## Joining -/

/-- Follows path segments from a stack of segments on: `.` stays and `..` goes up, though never past the
root. -/
def follow (stack : List (List Char)) : List (List Char) → List (List Char)
  | [] => stack.reverse
  | ['.', '.'] :: rest => follow stack.tail rest
  | ['.'] :: rest => follow stack rest
  | segment :: rest => follow (segment :: stack) rest

/-- Drops the empty segments between the first and the last. -/
def dropEmptyInner : List (List Char) → List (List Char)
  | first :: rest =>
    match rest.getLast? with
    | some last => first :: rest.dropLast.filter (!·.isEmpty) ++ [last]
    | none => [first]
  | [] => []

/-- The path that a path leads to from a base path. -/
def joinPath (base path : List Char) : List Char :=
  let segments :=
    if path.head? = some '/' then path.splitOn '/'
    else
      let directory := base.splitOn '/'
      let directory := if directory.getLast? = some [] then directory else directory.dropLast
      dropEmptyInner (directory ++ path.splitOn '/')
  let found := follow [] segments
  let endsOpen := segments.getLast? = some ['.'] ∨ segments.getLast? = some ['.', '.']
  let found := if endsOpen then found ++ [[]] else found
  match ['/'].intercalate found with
  | [] => ['/']
  | joined => joined

/-- The URI that a reference leads to from a base URI. -/
def join (base reference : String) : Except Fault String :=
  if base.isEmpty then return reference
  else if reference.isEmpty then return base
  else do
    let b ← parts [] base.toList
    let r ← parts b.scheme reference.toList
    if r.scheme ≠ b.scheme || !schemeIn relativeSchemes r.scheme then return reference
    let hasAuthority := schemeIn authoritySchemes r.scheme
    if hasAuthority && !r.authority.isEmpty then return String.ofList r.toList
    let r := if hasAuthority then { r with authority := b.authority } else r
    let joined :=
      if r.path.isEmpty && r.params.isEmpty then
        { r with path := b.path, params := b.params, query := if r.query.isEmpty then b.query else r.query }
      else { r with path := joinPath b.path r.path }
    return String.ofList joined.toList

end SchemaAccessors.Uri
