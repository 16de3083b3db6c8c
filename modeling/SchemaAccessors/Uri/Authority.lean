import SchemaAccessors.Number.Digits
import SchemaAccessors.Text.Hex
import SchemaAccessors.Text.Quoted

/-!
# Authorities

The authority of a URI names a host, with a user before it and a port behind it. A host in square brackets has
to be an IPv6 address, or else one of a later version, which says so itself. Outside brackets a host may be
anything, except that no character of an authority may look like a delimiter.
-/

namespace SchemaAccessors.Uri

/-- Why a URI has no parts. -/
inductive Fault
  /-- Square brackets stand in the authority that are not around its host. -/
  | brackets
  /-- The host in brackets begins like an address of a later version, and is none. -/
  | laterVersion
  /-- The host in brackets is an IPv4 address. -/
  | dotted
  /-- The host in brackets is no address. -/
  | notAnAddress (host : String)
  /-- The authority holds a character that looks like a delimiter. -/
  | lookalike (authority : String)
deriving DecidableEq, Repr

def Fault.message : Fault → String
  | brackets => "Invalid IPv6 URL"
  | laterVersion => "IPvFuture address is invalid"
  | dotted => "An IPv4 address cannot be in brackets"
  | notAnAddress host => s!"{Text.quoted host} does not appear to be an IPv4 or IPv6 address"
  | lookalike authority =>
    "netloc '" ++ authority ++ "' contains invalid characters under NFKC normalization"

/-- What stands before the first `mark`, and what stands behind it if there is one. -/
def cut (mark : Char) (text : List Char) : List Char × Option (List Char) :=
  match text.span (· ≠ mark) with
  | (before, _ :: after) => (before, some after)
  | (before, []) => (before, none)

/-! ## Addresses

An IPv4 address is four numbers between dots. An IPv6 address is eight groups between colons; one run of groups
that are zero may be left out between two colons, and the last two groups may be written as an IPv4 address. -/

/-- A number up to 255, without needless zeros. -/
def isOctet (text : List Char) : Bool :=
  !text.isEmpty && text.all Char.isDigit && text.length ≤ 3 && (text.length = 1 || text.head? ≠ some '0')
    && Number.ofDigits text ≤ 255

/-- Whether a text is an IPv4 address. -/
def isDotted (text : List Char) : Bool :=
  let octets := text.splitOn '.'
  octets.length = 4 && octets.all isOctet

/-- One to four hexadecimal digits. -/
def isGroup (text : List Char) : Bool :=
  !text.isEmpty && text.length ≤ 4 && text.all fun c => (Text.hexValue? c).isSome

/-- How many groups stand between the colons of a text, if that is what it is. -/
def groupCount? (text : List Char) : Option Nat :=
  if text.isEmpty then some 0
  else
    let groups := text.splitOn ':'
    if groups.all isGroup then some groups.length else none

/-- How many groups a text has that ends an address, where an IPv4 address is two of them. -/
def endCount? (text : List Char) : Option Nat :=
  let last := (text.reverse.takeWhile (· ≠ ':')).reverse
  if !isDotted last then groupCount? text
  else if last.length = text.length then some 2
  else
    let before := text.take (text.length - last.length - 1)
    if before.isEmpty then none else (groupCount? before).map (· + 2)

/-- What stands before the first two colons in a row, and behind them. -/
def cutGap? : List Char → Option (List Char × List Char)
  | ':' :: ':' :: rest => some ([], rest)
  | c :: rest => (cutGap? rest).map fun (before, after) => (c :: before, after)
  | [] => none

/-- Whether a text is an IPv6 address without a zone. -/
def isColoned (text : List Char) : Bool :=
  match cutGap? text with
  | none => endCount? text = some 8
  | some (before, after) =>
    match groupCount? before, endCount? after with
    | some m, some n => m + n < 8
    | _, _ => false

/-- Whether a text is an IPv6 address. The name of a zone may follow it behind a percent sign. -/
def isZoned (text : List Char) : Bool :=
  match cut '%' text with
  | (address, none) => isColoned address
  | (address, some zone) => isColoned address && !zone.isEmpty && !zone.contains '%'

/-! ## Hosts in brackets -/

/-- Whether a host is an address of a later version: a `v`, the version in hexadecimal digits, a dot, and
something behind it. -/
def isLater : List Char → Bool
  | 'v' :: rest =>
    match cut '.' rest with
    | (version, some address) =>
      !version.isEmpty && version.all (fun c => (Text.hexValue? c).isSome) && !address.isEmpty
    | (_, none) => false
  | _ => false

/-- The reason to refuse a host in brackets, if there is one. -/
def hostFault? (host : List Char) : Option Fault :=
  if host.head? = some 'v' then if isLater host then none else some .laterVersion
  else if isZoned host then none
  else if isDotted host then some .dotted
  else some (.notAnAddress (String.ofList host))

/-- The reason to refuse an authority with both square brackets, if there is one. Behind the user, the opening
bracket comes first, and nothing but a port follows the closing one. -/
def bracketFault? (authority : List Char) : Option Fault :=
  let behindUser := (authority.reverse.takeWhile (· ≠ '@')).reverse
  match cut '[' behindUser with
  | ([], some bracketed) =>
    let (host, port) := cut ']' bracketed
    match port with
    | some (c :: _) => if c = ':' then hostFault? host else some .brackets
    | _ => hostFault? host
  | (_, some _) => some .brackets
  | (_, none) => hostFault? (cut ':' behindUser).1

/-- Characters whose compatibility form holds one of `/?#@:`. -/
def isLookalike (c : Char) : Bool :=
  [0x2047, 0x2048, 0x2049, 0x2100, 0x2101, 0x2105, 0x2106, 0x2a74, 0xfe13, 0xfe16, 0xfe55, 0xfe56, 0xfe5f,
    0xfe6b, 0xff03, 0xff0f, 0xff1a, 0xff1f, 0xff20].contains c.toNat

/-- The reason to refuse an authority, if there is one. -/
def authorityFault? (authority : List Char) : Option Fault :=
  let brackets :=
    match authority.contains '[', authority.contains ']' with
    | false, false => none
    | true, true => bracketFault? authority
    | _, _ => some .brackets
  match brackets with
  | some fault => some fault
  | none => if authority.any isLookalike then some (.lookalike (String.ofList authority)) else none

end SchemaAccessors.Uri
