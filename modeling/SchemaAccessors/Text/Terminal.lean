/-!
# Terminal sequences

Some sequences of characters are not shown by a terminal but obeyed: an escape character and an opening
bracket, then parameters, and a letter that ends the sequence. A text for another reader goes without them.
Each sequence is found in the text as it is, so what is left may hold one again.
-/

namespace SchemaAccessors.Text

def isSequenceParameter (c : Char) : Bool :=
  c = ';' || c = '?' || c.isDigit

/-- What stands behind the sequence that a text begins with, if it begins with one. -/
def behindSequence? : List Char → Option (List Char)
  | '\x1b' :: '[' :: rest =>
    match rest.dropWhile isSequenceParameter with
    | c :: after => if c.isAlpha then some after else none
    | [] => none
  | _ => none

theorem length_lt_of_behindSequence? {text after : List Char} (h : behindSequence? text = some after) :
    after.length < text.length := by
  unfold behindSequence? at h
  split at h
  · next rest =>
    have hle := (List.dropWhile_suffix isSequenceParameter (l := rest)).length_le
    split at h
    · next c tail heq =>
      rw [heq] at hle
      split at h
      · cases h
        simp only [List.length_cons] at hle ⊢
        omega
      · cases h
    · cases h
  · cases h

/-- The text without its sequences. -/
def dropSequences : List Char → List Char
  | [] => []
  | c :: rest =>
    match _h : behindSequence? (c :: rest) with
    | some after => dropSequences after
    | none => c :: dropSequences rest
termination_by text => text.length
decreasing_by
  · exact length_lt_of_behindSequence? ‹_›
  · simp

/-- The text without its sequences. -/
def withoutSequences (text : String) : String :=
  String.ofList (dropSequences text.toList)

/-- A text without an escape character has no sequence to leave out. -/
theorem dropSequences_of_not_mem {text : List Char} (h : '\x1b' ∉ text) : dropSequences text = text := by
  induction text with
  | nil => rw [dropSequences]
  | cons c rest ih =>
    simp only [List.mem_cons, not_or] at h
    have hnone : behindSequence? (c :: rest) = none := by
      unfold behindSequence?
      split
      · next heq => exact absurd (List.cons.inj heq).1.symm h.1
      · rfl
    rw [dropSequences]
    split
    · next heq => rw [hnone] at heq; cases heq
    · rw [ih h.2]

end SchemaAccessors.Text
