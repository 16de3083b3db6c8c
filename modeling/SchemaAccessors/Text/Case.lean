import SchemaAccessors.Text.CaseTable

/-!
# Lower case

Field and parameter names are written in lower case in some of the generated code. The mapping is Unicode's
full one: a capital sigma becomes a final sigma at the end of a word, and a dotted capital I becomes two
characters.
-/

namespace SchemaAccessors.Text

/-- Whether a code point lies in one of some ranges. -/
def inRanges (ranges : List (Nat × Nat)) (n : Nat) : Bool :=
  ranges.any fun r => r.1 ≤ n && n ≤ r.2

def CaseRun.contains (run : CaseRun) (n : Nat) : Bool :=
  run.first ≤ n && n ≤ run.last && (n - run.first) % run.step == 0

/-- The lower case of a character, whatever stands beside it. -/
def lowerChar (c : Char) : List Char :=
  let n := c.toNat
  if n < 0x80 then [if 'A' ≤ c ∧ c ≤ 'Z' then Char.ofNat (n + 32) else c]
  else if n = 0x130 then ['i', '\u0307']
  else match lowerRuns.find? (·.contains n) with
    | some run => [Char.ofNat (n + run.shift).toNat]
    | none => [c]

/-- Whether a sigma between `before`, read backwards, and `after` ends a word: a letter goes before it and
none comes after it, marks and modifiers aside. -/
def endsWord (before after : List Char) : Bool :=
  let letter (text : List Char) : Bool :=
    match text.dropWhile fun c => inRanges caseIgnorableRanges c.toNat with
    | [] => false
    | c :: _ => inRanges casedRanges c.toNat
  letter before && !letter after

/-- Lower case of a text that follows the characters `before`, read backwards. -/
def lowerFrom (before : List Char) : List Char → List Char
  | [] => []
  | c :: rest =>
    (if c = 'Σ' then [if endsWord before rest then 'ς' else 'σ'] else lowerChar c) ++
      lowerFrom (c :: before) rest

/-- The text in lower case. -/
def lower (text : String) : String :=
  String.ofList (lowerFrom [] text.toList)

end SchemaAccessors.Text
