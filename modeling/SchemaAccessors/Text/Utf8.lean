/-!
# UTF-8

Percent escapes in a URI stand for octets. They are read as UTF-8, and octets that are no UTF-8 become
U+FFFD, one for each maximal ill-formed part: the longest run of octets that begins some character, or one
octet where none begins.
-/

namespace SchemaAccessors.Text.Utf8

/-- The octets of a text. -/
def encode (text : List Char) : List UInt8 :=
  text.flatMap String.utf8EncodeChar

/-- Stands for octets that are no character. -/
def replacement : Char := '\uFFFD'

/-- A character whose first octets have been read: how many are missing, the value so far, and the bounds
of the next octet. -/
structure Open where
  missing : Nat
  value : Nat
  low : Nat
  high : Nat
deriving DecidableEq, Repr

/-- Reads an octet where no character is open. -/
def start (octet : Nat) : List Char × Option Open :=
  if octet < 0x80 then ([Char.ofNat octet], none)
  else if octet < 0xc2 then ([replacement], none)
  else if octet < 0xe0 then ([], some ⟨1, octet - 0xc0, 0x80, 0xbf⟩)
  else if octet = 0xe0 then ([], some ⟨2, 0, 0xa0, 0xbf⟩)
  else if octet = 0xed then ([], some ⟨2, 0xd, 0x80, 0x9f⟩)
  else if octet < 0xf0 then ([], some ⟨2, octet - 0xe0, 0x80, 0xbf⟩)
  else if octet = 0xf0 then ([], some ⟨3, 0, 0x90, 0xbf⟩)
  else if octet < 0xf4 then ([], some ⟨3, octet - 0xf0, 0x80, 0xbf⟩)
  else if octet = 0xf4 then ([], some ⟨3, 4, 0x80, 0x8f⟩)
  else ([replacement], none)

/-- Reads one octet. An octet that does not continue the open character is read afresh. -/
def step : Option Open → (octet : Nat) → List Char × Option Open
  | none, octet => start octet
  | some o, octet =>
    if o.low ≤ octet ∧ octet ≤ o.high then
      let value := o.value * 64 + (octet - 0x80)
      if o.missing = 1 then ([Char.ofNat value], none)
      else ([], some ⟨o.missing - 1, value, 0x80, 0xbf⟩)
    else
      let (text, next) := start octet
      (replacement :: text, next)

/-- Reads octets from a given state on. A character that is open at the end is ill-formed. -/
def decodeFrom : Option Open → List UInt8 → List Char
  | none, [] => []
  | some _, [] => [replacement]
  | state, octet :: rest =>
    let (text, next) := step state octet.toNat
    text ++ decodeFrom next rest

/-- The text of some octets, with the ill-formed parts replaced. -/
def decode (octets : List UInt8) : List Char :=
  decodeFrom none octets

end SchemaAccessors.Text.Utf8
