import SchemaAccessors.Json.Decoded
import SchemaAccessors.Number.Digits
import SchemaAccessors.Text.Hex

/-!
# Reading JSON

The reader takes JSON text as the standard has it, and the words `NaN`, `Infinity` and `-Infinity` besides.
The first fault ends the reading; it is reported with its place in the text.
-/

namespace SchemaAccessors.Json

/-- What is wrong with a text that is no JSON. -/
inductive Fault
  | value
  | propertyName
  | colon
  | comma
  | unterminatedString
  | controlCharacter
  | escape
  | unicodeEscape
  | extraData
  | byteOrderMark
  /-- The form is right, but a number is beyond the bound on its digits. -/
  | overlong (number : Number.Overlong)
deriving DecidableEq, Repr

def Fault.message : Fault → String
  | value => "Expecting value"
  | propertyName => "Expecting property name enclosed in double quotes"
  | colon => "Expecting ':' delimiter"
  | comma => "Expecting ',' delimiter"
  | unterminatedString => "Unterminated string starting at"
  | controlCharacter => "Invalid control character at"
  | escape => "Invalid \\escape"
  | unicodeEscape => "Invalid \\uXXXX escape"
  | extraData => "Extra data"
  | byteOrderMark => "Unexpected UTF-8 BOM (decode using utf-8-sig)"
  | overlong number => number.message

/-- A fault and how many characters are left where it lies. -/
structure Stop where
  fault : Fault
  left : Nat
deriving DecidableEq, Repr

/-- A fault and where it lies: the count of characters before it, and line and column, both from one. -/
structure ReadError where
  fault : Fault
  offset : Nat
  line : Nat
  column : Nat
deriving DecidableEq, Repr

/-- The wording of an error. The place is said unless it is a number that is at fault. -/
def ReadError.message (e : ReadError) : String :=
  match e.fault with
  | .overlong number => number.message
  | fault => s!"{fault.message}: line {e.line} column {e.column} (char {e.offset})"

/-- What has been read at the front of a text, and the text after that. -/
abbrev Read (α : Type) := α × List Char

def stop {α : Type} (fault : Fault) (rest : List Char) : Except Stop (Read α) :=
  .error ⟨fault, rest.length⟩

def skipBlanks (text : List Char) : List Char :=
  text.dropWhile fun c => c = ' ' || c = '\t' || c = '\n' || c = '\r'

/-! ## Numbers -/

/-- The longest run of digits at the front, and the rest. -/
def spanDigits (text : List Char) : List Char × List Char :=
  text.span Char.isDigit

/-- The exponent at the front: its value and the rest, if there is one. -/
def exponent? : List Char → Option (Int × List Char)
  | c :: rest =>
    if c = 'e' ∨ c = 'E' then
      let (negative, rest) := match rest with
        | '-' :: rest => (true, rest)
        | '+' :: rest => (false, rest)
        | rest => (false, rest)
      match spanDigits rest with
      | ([], _) => none
      | (digits, rest) => some (if negative then -Number.ofDigits digits else Number.ofDigits digits, rest)
    else none
  | [] => none

/-- The fraction at the front: its digits and the rest, if there is one. -/
def fraction? : List Char → Option (List Char × List Char)
  | '.' :: rest =>
    match spanDigits rest with
    | ([], _) => none
    | found => some found
  | _ => none

/-- A number, unless it has too many digits, and the text after it. -/
abbrev NumberRead := Except Number.Overlong Decoded × List Char

/-- A number without its sign: no digit follows a zero at the front, and a fraction or an exponent makes the
number a double-precision one. The bound on digits is for whole numbers alone. -/
def unsignedNumber? (negative : Bool) (text : List Char) : Option NumberRead :=
  let (whole, rest) := match text with
    | '0' :: rest => (['0'], rest)
    | text => spanDigits text
  if whole.isEmpty then none
  else
    let (fraction, rest, fractional) := match fraction? rest with
      | some (digits, rest) => (digits, rest, true)
      | none => ([], rest, false)
    let (scale, rest, scaled) := match exponent? rest with
      | some (e, rest) => (e, rest, true)
      | none => (0, rest, false)
    if fractional || scaled then
      let digits := Number.ofDigits (whole ++ fraction)
      some (.ok (.float (Binary64.ofDecimal negative digits (scale - fraction.length))), rest)
    else
      some ((Number.read whole).map fun n => .int (if negative then -n else n), rest)

/-- A number or one of the words for a number without digits. -/
def number? : List Char → Option NumberRead
  | 'N' :: 'a' :: 'N' :: rest => some (.ok (.float .nan), rest)
  | 'I' :: 'n' :: 'f' :: 'i' :: 'n' :: 'i' :: 't' :: 'y' :: rest => some (.ok (.float (.infinite false)), rest)
  | '-' :: 'I' :: 'n' :: 'f' :: 'i' :: 'n' :: 'i' :: 't' :: 'y' :: rest =>
    some (.ok (.float (.infinite true)), rest)
  | '-' :: rest => unsignedNumber? true rest
  | text => unsignedNumber? false text

/-! ## Strings -/

/-- The value of four hexadecimal digits at the front. -/
def fourHex? : List Char → Option (Nat × List Char)
  | a :: b :: c :: d :: rest => do
    let a ← Text.hexValue? a
    let b ← Text.hexValue? b
    let c ← Text.hexValue? c
    let d ← Text.hexValue? d
    return (((a * 16 + b) * 16 + c) * 16 + d, rest)
  | _ => none

/-- The character of an escape of one letter. -/
def shortEscape? : Char → Option Char
  | '"' => some '"'
  | '\\' => some '\\'
  | '/' => some '/'
  | 'b' => some '\x08'
  | 'f' => some '\x0c'
  | 'n' => some '\n'
  | 'r' => some '\r'
  | 't' => some '\t'
  | _ => none

/-- Reads the four digits of a `\u` escape from its `u` on. An escape at the very end of a text has no room
for its digits and the closing mark. -/
def unit : List Char → Except Stop (Read Nat)
  | u :: rest =>
    if rest.length ≤ 4 then stop .unicodeEscape (u :: rest)
    else match fourHex? rest with
      | some found => .ok found
      | none => stop .unicodeEscape (u :: rest)
  | [] => stop .unicodeEscape []

/-- Reads a `\u` escape from its `u` on. Two escapes make one character when they are a surrogate pair; otherwise
a surrogate stands on its own. -/
def unicodeEscape (text : List Char) : Except Stop (Read CodePoint) := do
  let (high, rest) ← unit text
  if 0xd800 ≤ high ∧ high ≤ 0xdbff then
    match rest with
    | '\\' :: 'u' :: rest' =>
      if rest'.length ≤ 4 then return (.ofNat high, rest)
      let (low, rest'') ← unit ('u' :: rest')
      if 0xdc00 ≤ low ∧ low ≤ 0xdfff then
        return (.ofNat (0x10000 + (high - 0xd800) * 0x400 + (low - 0xdc00)), rest'')
      return (.ofNat high, rest)
    | _ => return (.ofNat high, rest)
  else return (.ofNat high, rest)

/-- Reads a string behind its opening quotation mark. `opening` counts the characters left at the mark, `read`
holds the code points so far, backwards. -/
def stringFrom (opening : Nat) (read : List CodePoint) : (fuel : Nat) → List Char → Except Stop (Read CodePoints)
  | 0, _ => .error ⟨.unterminatedString, opening⟩
  | _, [] => .error ⟨.unterminatedString, opening⟩
  | _, '"' :: rest => .ok (read.reverse, rest)
  | _, ['\\'] => .error ⟨.unterminatedString, opening⟩
  | fuel + 1, '\\' :: c :: rest =>
    if c = 'u' then
      match unicodeEscape (c :: rest) with
      | .ok (d, rest) => stringFrom opening (d :: read) fuel rest
      | .error e => .error e
    else match shortEscape? c with
      | some d => stringFrom opening (.char d :: read) fuel rest
      | none => stop .escape ('\\' :: c :: rest)
  | fuel + 1, c :: rest =>
    if c.toNat < 0x20 then stop .controlCharacter (c :: rest)
    else stringFrom opening (.char c :: read) fuel rest

/-- Reads a string behind its opening quotation mark. -/
def string (rest : List Char) : Except Stop (Read CodePoints) :=
  stringFrom (rest.length + 1) [] (rest.length + 1) rest

/-! ## Values

Of two steps of the reader one at least takes a character, so twice the length of the text bounds the depth of
calls. -/

mutual

/-- Reads a value at the front of a text. -/
def valueFrom : (fuel : Nat) → List Char → Except Stop (Read Decoded)
  | 0, text => stop .value text
  | fuel + 1, text =>
    match text with
    | '"' :: rest => do
      let (s, rest) ← string rest
      return (.str s, rest)
    | '\x7b' :: rest =>
      match skipBlanks rest with
      | '\x7d' :: rest => .ok (.obj [], rest)
      | rest => membersFrom fuel [] rest
    | '[' :: rest =>
      match skipBlanks rest with
      | ']' :: rest => .ok (.arr [], rest)
      | rest => elementsFrom fuel [] rest
    | 'n' :: 'u' :: 'l' :: 'l' :: rest => .ok (.null, rest)
    | 't' :: 'r' :: 'u' :: 'e' :: rest => .ok (.bool true, rest)
    | 'f' :: 'a' :: 'l' :: 's' :: 'e' :: rest => .ok (.bool false, rest)
    | text =>
      match number? text with
      | some (.ok value, rest) => .ok (value, rest)
      | some (.error number, rest) => stop (.overlong number) rest
      | none => stop .value text

/-- Reads the members of an object from a key on, after the members `read`. -/
def membersFrom : (fuel : Nat) → (read : Decoded.Members) → List Char → Except Stop (Read Decoded)
  | 0, _, text => stop .propertyName text
  | fuel + 1, read, text =>
    match text with
    | '"' :: rest => do
      let (key, rest) ← string rest
      match skipBlanks rest with
      | ':' :: rest => do
        let (value, rest) ← valueFrom fuel (skipBlanks rest)
        let read := Table.put read key value
        match skipBlanks rest with
        | '\x7d' :: rest => return (.obj read, rest)
        | ',' :: rest => membersFrom fuel read (skipBlanks rest)
        | rest => stop .comma rest
      | rest => stop .colon rest
    | text => stop .propertyName text

/-- Reads the elements of an array from an element on, after the elements `read`, held backwards. -/
def elementsFrom : (fuel : Nat) → (read : List Decoded) → List Char → Except Stop (Read Decoded)
  | 0, _, text => stop .value text
  | fuel + 1, read, text => do
    let (value, rest) ← valueFrom fuel text
    match skipBlanks rest with
    | ']' :: rest => return (.arr (value :: read).reverse, rest)
    | ',' :: rest => elementsFrom fuel (value :: read) (skipBlanks rest)
    | rest => stop .comma rest

end

/-- Where a stop lies in a text. -/
def Stop.locate (s : Stop) (text : List Char) : ReadError :=
  let before := text.take (text.length - s.left)
  { fault := s.fault
    offset := before.length
    line := before.count '\n' + 1
    column := (before.reverse.takeWhile (· ≠ '\n')).length + 1 }

/-- Reads a text that is one JSON value, with blanks around it. -/
def decode (text : String) : Except ReadError Decoded :=
  let chars := text.toList
  let outcome : Except Stop Decoded :=
    if chars.head? = some '\uFEFF' then .error ⟨.byteOrderMark, chars.length⟩
    else do
      let (value, rest) ← valueFrom (2 * chars.length + 2) (skipBlanks chars)
      match skipBlanks rest with
      | [] => return value
      | rest => .error ⟨.extraData, rest.length⟩
  outcome.mapError (·.locate chars)

/-- Reads a text as a value whose texts have characters only. -/
def parse (text : String) : Except ReadError Json :=
  (decode text).map (·.json)

end SchemaAccessors.Json
