import SchemaAccessors.Number.Binary64

/-!
# Decimal text of numbers

A finite number is written with the fewest digits that read back to it, and among those with the digits
nearest to it. It is written positionally from 0.0001 on and below 10^16, and with an exponent otherwise.
-/

namespace SchemaAccessors

namespace Binary64

/-! ## The fewest digits that read back

With a given count of digits, only the two neighbours of the number on that decimal grid can be nearest to
it. Counts are tried in ascending order, and seventeen digits always suffice. -/

/-- The value of a finite number as a ratio. -/
def ratio (significand : Nat) (exponent : Int) : Nat × Nat :=
  if 0 ≤ exponent then (significand * Nat.pow 2 exponent.toNat, 1)
  else (significand, Nat.pow 2 (-exponent).toNat)

/-- How many zeros follow the decimal point of `num / den` below one, counted up to `fuel`. -/
def leadingZeros (num den : Nat) : (fuel : Nat) → Nat
  | 0 => 0
  | fuel + 1 => if den ≤ num * 10 then 0 else leadingZeros (num * 10) den fuel + 1

/-- The `k` with `10 ^ (k - 1) ≤ num / den < 10 ^ k`. -/
def decimalPoint (num den : Nat) : Int :=
  if den ≤ num then digitCount (num / den) else -leadingZeros num den 400

/-- The neighbour of `num / den` on the grid of multiples of `10 ^ scale` that reads back to `x`, the nearer
one of two, the even one of two at the same distance. -/
def onGrid? (x : Binary64) (num den : Nat) (scale : Int) : Option Nat :=
  let (n, d) := if 0 ≤ scale then (num, den * Nat.pow 10 scale.toNat) else (num * Nat.pow 10 (-scale).toNat, den)
  let below := n / d
  let readsBack (digits : Nat) : Bool := ofDecimal false digits scale == x
  match readsBack below, readsBack (below + 1) with
  | true, true => some (roundHalfEven n d)
  | true, false => some below
  | false, true => some (below + 1)
  | false, false => none

/-- Tries counts of digits from `count` on, for `fuel` of them. -/
def shortestFrom (x : Binary64) (num den : Nat) (point : Int) (count : Nat) : (fuel : Nat) → Nat × Int
  | 0 => (0, 0)
  | fuel + 1 =>
    match onGrid? x num den (point - count) with
    | some digits => (digits, point - count)
    | none => shortestFrom x num den point (count + 1) fuel

/-- Digits `d` and a scale `s` such that `d · 10 ^ s` reads back to a positive finite number, `d` with as few
digits as possible. -/
def shortest (significand : Nat) (exponent : Int) : Nat × Int :=
  let (num, den) := ratio significand exponent
  shortestFrom (finite false significand exponent) num den (decimalPoint num den) 1 17

/-! ## Layout -/

/-- What a layout of numbers decides. -/
structure Layout where
  /-- Below this exponent, and from `scientificFrom` on, an exponent is written. -/
  positionalFrom : Int
  scientificFrom : Int
  /-- Least count of digits of an exponent, which always has a sign. -/
  exponentDigits : Nat
  nan : String
  infinity : String

/-- Numbers in messages and in generated code. -/
def plainLayout : Layout := ⟨-4, 16, 2, "nan", "inf"⟩

/-- Numbers in JSON text. -/
def jsonLayout : Layout := { plainLayout with nan := "NaN", infinity := "Infinity" }

def zeros (n : Nat) : List Char := List.replicate n '0'

/-- Digits with the decimal point after the first `point` of them. A whole number shows one zero behind it. -/
def positional (digits : List Char) (point : Int) : List Char :=
  if point ≤ 0 then '0' :: '.' :: zeros (-point).toNat ++ digits
  else
    let padded := digits ++ zeros (point.toNat - digits.length)
    match padded.drop point.toNat with
    | [] => padded ++ ['.', '0']
    | rest => padded.take point.toNat ++ '.' :: rest

/-- Digits with the decimal point after the first one, and an exponent. -/
def scientific (layout : Layout) (digits : List Char) (exponent : Int) : List Char :=
  let power := Nat.toDigits 10 exponent.natAbs
  let mantissa := match digits with
    | d :: rest@(_ :: _) => d :: '.' :: rest
    | short => short
  mantissa ++ 'e' :: (if exponent < 0 then '-' else '+') :: zeros (layout.exponentDigits - power.length) ++ power

/-- The digits of a positive number without zeros at the end, and the place of the decimal point. -/
def significantDigits (digits : Nat) (scale : Int) : List Char × Int :=
  let all := Nat.toDigits 10 digits
  ((all.reverse.dropWhile (· == '0')).reverse, scale + all.length)

/-- The text of a number. -/
def text (layout : Layout) : Binary64 → String
  | nan => layout.nan
  | infinite negative => (if negative then "-" else "") ++ layout.infinity
  | finite negative significand exponent =>
    let body :=
      if significand = 0 then ['0', '.', '0']
      else
        let (digits, scale) := shortest significand exponent
        let (shown, point) := significantDigits digits scale
        if layout.positionalFrom ≤ point - 1 ∧ point - 1 < layout.scientificFrom then positional shown point
        else scientific layout shown (point - 1)
    String.ofList (if negative then '-' :: body else body)

end Binary64

end SchemaAccessors
