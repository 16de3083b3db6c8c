import SchemaAccessors.Number.Binary64
import SchemaAccessors.Table

/-!
# JSON values

Schema documents and configurations are JSON. An object keeps its members in the order of the text, and an
integer is another value than the number with the same amount and a fraction.
-/

namespace SchemaAccessors

/-- A JSON value. The keys of an object that has been read are pairwise different. -/
inductive Json
  | null
  | bool (value : Bool)
  | int (value : Int)
  | float (value : Binary64)
  | str (value : String)
  | arr (elements : List Json)
  | obj (members : List (String × Json))
deriving Inhabited, BEq, Repr

/-- The members of an object. -/
abbrev Members := Table String Json

namespace Json

/-- Whether a value counts as a yes where a yes or no is wanted: neither null nor false, zero or empty. -/
def truthy : Json → Bool
  | null => false
  | bool b => b
  | int n => n != 0
  | float x => !x.isZero
  | str s => !s.isEmpty
  | arr xs => !xs.isEmpty
  | obj ms => !ms.isEmpty

/-- The text of a string value. -/
def str? : Json → Option String
  | str s => some s
  | _ => none

/-! ## Size

The size bounds how many subschemas a document has. -/

mutual

/-- Count of the values in a value, itself among them. -/
def size : Json → Nat
  | arr xs => sizeElements xs + 1
  | obj ms => sizeMembers ms + 1
  | _ => 1

def sizeElements : List Json → Nat
  | [] => 0
  | x :: xs => size x + sizeElements xs

def sizeMembers : Members → Nat
  | [] => 0
  | (_, x) :: ms => size x + sizeMembers ms

end

end Json

namespace Members

/-- The value of a key. -/
def get? (ms : Members) (key : String) : Option Json :=
  ms.lookup key

/-- Whether a key is there. -/
def has (ms : Members) (key : String) : Bool :=
  (ms.get? key).isSome

theorem mem_of_get? {ms : Members} {key : String} {value : Json} (h : ms.get? key = some value) :
    (key, value) ∈ ms := by
  induction ms with
  | nil => simp [get?] at h
  | cons m ms ih =>
    obtain ⟨k, v⟩ := m
    simp only [get?, List.lookup_cons] at h ih
    split at h
    · next heq =>
      simp only [beq_iff_eq] at heq
      simp only [Option.some.injEq] at h
      simp [heq, h]
    · exact List.mem_cons_of_mem _ (ih h)

end Members

end SchemaAccessors
