/-!
# Whole numbers in decimal digits

Digits are read from the left, and zeros in front count for nothing but the length. There is a bound on how many
digits are read or written, and a text beyond it is refused as a whole.
-/

namespace SchemaAccessors.Number

/-- The value of a decimal digit. -/
def digitValue (c : Char) : Nat := c.toNat - 48

/-- The number that some digits denote. -/
def ofDigits (digits : List Char) : Nat :=
  digits.foldl (fun n c => n * 10 + digitValue c) 0

/-- Most digits of a number that is read or written. -/
def mostDigits : Nat := 4300

/-- A number with too many digits. -/
inductive Overlong
  /-- Met with so many digits in a text. -/
  | read (digits : Nat)
  /-- Come to be written. -/
  | written
deriving DecidableEq, Repr

def Overlong.message (o : Overlong) : String :=
  let found := match o with
    | read digits => s!": value has {digits} digits"
    | written => ""
  s!"Exceeds the limit ({mostDigits} digits) for integer string conversion{found}; "
    ++ "use sys.set_int_max_str_digits() to increase the limit"

/-- Reads a number from its digits. -/
def read (digits : List Char) : Except Overlong Nat :=
  if mostDigits < digits.length then .error (.read digits.length) else .ok (ofDigits digits)

/-- Writes a number with as few digits as it has. -/
def write (n : Nat) : Except Overlong (List Char) :=
  let digits := Nat.toDigits 10 n
  if mostDigits < digits.length then .error .written else .ok digits

theorem eq_of_read {digits : List Char} {n : Nat} (h : read digits = .ok n) : n = ofDigits digits := by
  unfold read at h
  split at h
  · cases h
  · exact (Except.ok.inj h).symm

theorem eq_of_write {n : Nat} {digits : List Char} (h : write n = .ok digits) : digits = Nat.toDigits 10 n := by
  dsimp only [write] at h
  split at h
  · cases h
  · exact (Except.ok.inj h).symm

end SchemaAccessors.Number
