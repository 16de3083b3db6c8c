import SchemaAccessors.Text.Hex
import SchemaAccessors.Text.Utf8

/-!
# Percent escapes

Octets that may not stand in a URI are written as `%` and two hexadecimal digits. Reading is lenient: a `%`
without two digits stands for itself, and octets that are no UTF-8 are replaced.
-/

namespace SchemaAccessors.Uri

/-- Letters, digits and marks that are never escaped. -/
def isUnreserved (c : Char) : Bool :=
  c.isAlphanum || c = '_' || c = '.' || c = '-' || c = '~'

/-- An octet as an escape. -/
def escapeOctet (octet : Nat) : List Char :=
  ['%', Text.upperHexDigit (octet / 16), Text.upperHexDigit (octet % 16)]

/-- Escapes every octet that is no `safe` ASCII character. -/
def escape (safe : Char → Bool) (text : List Char) : List Char :=
  (Text.Utf8.encode text).flatMap fun octet =>
    let c := Char.ofNat octet.toNat
    if octet.toNat < 0x80 && safe c then [c] else escapeOctet octet.toNat

/-- The octets that ASCII text with escapes stands for. -/
def octets : List Char → List UInt8
  | '%' :: a :: b :: rest =>
    match Text.hexValue? a, Text.hexValue? b with
    | some high, some low => UInt8.ofNat (high * 16 + low) :: octets rest
    | _, _ => UInt8.ofNat 0x25 :: octets (a :: b :: rest)
  | c :: rest => UInt8.ofNat c.toNat :: octets rest
  | [] => []

/-- Undoes escapes in a text that follows the ASCII characters `run`, held backwards. Escapes are read
together with the ASCII characters around them, but never across another character. -/
def unescapeFrom (run : List Char) : List Char → List Char
  | [] => Text.Utf8.decode (octets run.reverse)
  | c :: rest =>
    if c.toNat < 0x80 then unescapeFrom (c :: run) rest
    else Text.Utf8.decode (octets run.reverse) ++ c :: unescapeFrom [] rest

/-- Undoes escapes. -/
def unescape (text : List Char) : List Char :=
  unescapeFrom [] text

end SchemaAccessors.Uri
