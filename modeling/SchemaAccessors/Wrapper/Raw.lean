import SchemaAccessors.Failure
import SchemaAccessors.Schema.Kind

/-!
# Raw values

A wrapper holds a decoded JSON value. What is known of that value before it is looked at is its raw kind: one
of the primitive types if the schema names exactly one, and otherwise any value.
-/

namespace SchemaAccessors

inductive RawKind
  | array
  | boolean
  | integer
  | null
  | number
  | object
  | string
  | any
deriving DecidableEq, Repr

namespace RawKind

def all : List RawKind := [array, boolean, integer, null, number, object, string, any]

/-- The name in fields and getters. -/
def name : RawKind → String
  | array => "JsonArray"
  | boolean => "Boolean"
  | integer => "Integer"
  | null => "Null"
  | number => "Number"
  | object => "JsonObject"
  | string => "String"
  | any => "Object"

/-- The raw kind of a name. -/
def ofName? (name : String) : Option RawKind :=
  all.find? (·.name = name)

def ofKind : Kind → RawKind
  | .array => array
  | .boolean => boolean
  | .integer => integer
  | .null => null
  | .number => number
  | .object => object
  | .string => string

/-- The raw kind of the values of a schema that names some types. -/
def ofKinds : List Kind → RawKind
  | [k] => ofKind k
  | _ => any

/-- The raw kind for a list of type names. Names are looked at only if there is exactly one. -/
def ofNames : List Json → Except Failure RawKind
  | [.arr _] | [.obj _] => .error .wrongKind
  | [name] =>
    match name.str?.bind Kind.ofName? with
    | some k => .ok (ofKind k)
    | none => .error (.unknownKind name)
  | _ => .ok any

theorem ofKinds_eq_any_iff {kinds : List Kind} : ofKinds kinds = any ↔ kinds.length ≠ 1 := by
  match kinds with
  | [] => simp [ofKinds]
  | [k] => cases k <;> simp [ofKinds, ofKind]
  | _ :: _ :: _ => simp [ofKinds]

end RawKind

end SchemaAccessors
