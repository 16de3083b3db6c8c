import SchemaAccessors.Json.Value
import SchemaAccessors.Text.CodePoint

/-!
# Values as they are read

A text that was read may hold surrogates on their own, in keys as in values. Such a value is looked at only where
it is loaded, since a key with a surrogate cannot be part of a URI. All else is done with values whose texts have
characters only; where these came from a value with surrogates, U+FFFD stands for each.
-/

namespace SchemaAccessors

/-- A JSON value as it was read. -/
inductive Decoded
  | null
  | bool (value : Bool)
  | int (value : Int)
  | float (value : Binary64)
  | str (value : CodePoints)
  | arr (elements : List Decoded)
  | obj (members : List (CodePoints × Decoded))
deriving Inhabited

namespace Decoded

/-- The members of an object. -/
abbrev Members := Table CodePoints Decoded

mutual

/-- The value with U+FFFD for each surrogate. Of keys that become one, the first stays. -/
def json : Decoded → Json
  | null => .null
  | bool b => .bool b
  | int n => .int n
  | float x => .float x
  | str t => .str t.replaced
  | arr xs => .arr (jsonElements xs)
  | obj ms => .obj (Table.firsts (jsonEntries ms))

def jsonElements : List Decoded → List Json
  | [] => []
  | x :: xs => json x :: jsonElements xs

def jsonEntries : List (CodePoints × Decoded) → List (String × Json)
  | [] => []
  | (key, x) :: ms => (key.replaced, json x) :: jsonEntries ms

end

mutual

/-- A value without surrogates. -/
def ofJson : Json → Decoded
  | .null => null
  | .bool b => bool b
  | .int n => int n
  | .float x => float x
  | .str s => str (.ofString s)
  | .arr xs => arr (ofElements xs)
  | .obj ms => obj (ofMembers ms)

def ofElements : List Json → List Decoded
  | [] => []
  | x :: xs => ofJson x :: ofElements xs

def ofMembers : List (String × Json) → List (CodePoints × Decoded)
  | [] => []
  | (key, x) :: ms => (.ofString key, ofJson x) :: ofMembers ms

end

theorem ofElements_eq_map (xs : List Json) : ofElements xs = xs.map ofJson := by
  induction xs with
  | nil => rfl
  | cons x xs ih => rw [ofElements, ih, List.map_cons]

theorem ofMembers_eq_map (ms : SchemaAccessors.Members) :
    ofMembers ms = ms.map fun m => (.ofString m.1, ofJson m.2) := by
  induction ms with
  | nil => rfl
  | cons m ms ih => rw [ofMembers, ih, List.map_cons]

namespace Members

/-- The members with U+FFFD for each surrogate. -/
def json (ms : Members) : SchemaAccessors.Members :=
  Table.firsts (jsonEntries ms)

/-- The value of a key without surrogates. -/
def get? (ms : Members) (key : String) : Option Decoded :=
  ms.lookup (.ofString key)

/-- The members of the object under a keyword. -/
def entries (ms : Members) (keyword : String) : Members :=
  match ms.get? keyword with
  | some (.obj named) => named
  | _ => []

/-- The elements of the array under a keyword. -/
def elements (ms : Members) (keyword : String) : List Decoded :=
  match ms.get? keyword with
  | some (.arr values) => values
  | _ => []

/-- A key in which nothing was replaced has the same value after the replacement. -/
theorem get?_json (ms : Members) {key : String} (h : Text.Utf8.replacement ∉ key.toList) :
    ms.json.get? key = (ms.get? key).map Decoded.json := by
  unfold SchemaAccessors.Members.get? get? json
  rw [Table.lookup_firsts]
  induction ms with
  | nil => rfl
  | cons m ms ih =>
    rw [jsonEntries, List.lookup_cons, List.lookup_cons, ih]
    by_cases hkey : CodePoints.ofString key = m.1
    · simp [← hkey]
    · have hreplaced : ¬ key = m.1.replaced := fun hsame =>
        hkey ((CodePoints.replaced_eq_iff h).1 hsame.symm).symm
      rw [beq_eq_false_iff_ne.2 hkey, beq_eq_false_iff_ne.2 hreplaced]

end Members

end Decoded

end SchemaAccessors
