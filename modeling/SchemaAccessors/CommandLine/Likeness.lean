/-!
# Likeness of words

How alike two words are is measured by the characters that they share in order: the longest block that both
have, and then the same on either side of it. The words that are like enough are offered where an unknown one
was given.
-/

namespace SchemaAccessors.Likeness

/-- How many characters two lists begin with in common. -/
def commonStart : List Char → List Char → Nat
  | a :: as, b :: bs => if a = b then commonStart as bs + 1 else 0
  | _, _ => 0

/-- A block that two words share: where it begins in each, and its length. -/
structure Block where
  left : Nat
  right : Nat
  length : Nat

/-- The longest block of two words; of several, the first in the left word, and then in the right one. -/
def longestBlock (a b : List Char) : Block :=
  (List.range a.length).foldl (fun best i =>
    (List.range b.length).foldl (fun best j =>
      let n := commonStart (a.drop i) (b.drop j)
      if best.length < n then ⟨i, j, n⟩ else best) best) ⟨0, 0, 0⟩

/-- How many characters two words share in order, down to a depth of `fuel` blocks. -/
def sharedIn : (fuel : Nat) → List Char → List Char → Nat
  | 0, _, _ => 0
  | fuel + 1, a, b =>
    let block := longestBlock a b
    if block.length = 0 then 0
    else sharedIn fuel (a.take block.left) (b.take block.right) + block.length
      + sharedIn fuel (a.drop (block.left + block.length)) (b.drop (block.right + block.length))

/-- How many characters two words share in order. Each block leaves less of the left word. -/
def shared (a b : List Char) : Nat :=
  sharedIn a.length a b

/-- How alike two words are: the share of characters that are shared, as a fraction. -/
structure Score where
  numerator : Nat
  denominator : Nat

def score (a b : List Char) : Score :=
  ⟨2 * shared a b, a.length + b.length⟩

/-- Whether a score is three fifths at least. -/
def Score.isHigh (s : Score) : Bool :=
  3 * s.denominator ≤ 5 * s.numerator

/-- Whether one score is not below another. -/
def Score.ge (s t : Score) : Bool :=
  t.numerator * s.denominator ≤ s.numerator * t.denominator

/-- Whether a candidate goes before another: it is more like the word, or just as like and later in the order of
texts. -/
def before (c d : String × Score) : Bool :=
  if c.2.ge d.2 && d.2.ge c.2 then d.1 ≤ c.1 else c.2.ge d.2

/-- The candidates most like a word, three at most, in the order of texts. -/
def closest (word : String) (candidates : List String) : List String :=
  let scored := candidates.map fun c => (c, score c.toList word.toList)
  let best := ((scored.filter (·.2.isHigh)).mergeSort before).take 3
  (best.map (·.1)).mergeSort (· ≤ ·)

end SchemaAccessors.Likeness
