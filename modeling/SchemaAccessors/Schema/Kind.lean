import SchemaAccessors.Json.Value

/-!
# Primitive types

The seven primitive types of JSON Schema, in alphabetical order. A schema names types outright, or the
keywords that it uses imply them.
-/

namespace SchemaAccessors

inductive Kind
  | array
  | boolean
  | integer
  | null
  | number
  | object
  | string
deriving DecidableEq, Repr

namespace Kind

/-- All primitive types, in alphabetical order. -/
def all : List Kind := [array, boolean, integer, null, number, object, string]

def name : Kind → String
  | array => "array"
  | boolean => "boolean"
  | integer => "integer"
  | null => "null"
  | number => "number"
  | object => "object"
  | string => "string"

/-- The type of a name. -/
def ofName? (name : String) : Option Kind :=
  all.find? (·.name = name)

/-- Some types in alphabetical order, each once. -/
def sorted (kinds : List Kind) : List Kind :=
  all.filter kinds.contains

/-- Keywords that constrain values of one type only. -/
def keywords : Kind → List String
  | array => ["items", "additionalItems", "prefixItems", "contains", "minItems", "maxItems", "uniqueItems"]
  | number => ["minimum", "maximum", "exclusiveMinimum", "exclusiveMaximum", "multipleOf"]
  | object =>
    ["properties", "required", "additionalProperties", "patternProperties", "propertyNames", "minProperties",
      "maxProperties", "dependencies", "dependentRequired", "dependentSchemas"]
  | string => ["minLength", "maxLength", "pattern", "format"]
  | boolean | integer | null => []

/-- The type of a value. -/
def ofValue : Json → Kind
  | .null => null
  | .bool _ => boolean
  | .int _ => integer
  | .float _ => number
  | .str _ => string
  | .arr _ => array
  | .obj _ => object

@[simp] theorem ofName?_name (k : Kind) : ofName? k.name = some k := by
  cases k <;> decide

theorem name_of_ofName? {name : String} {k : Kind} (h : ofName? name = some k) : k.name = name := by
  simpa using List.find?_some h

theorem mem_all (k : Kind) : k ∈ all := by
  cases k <;> decide

@[simp] theorem mem_sorted {k : Kind} {kinds : List Kind} : k ∈ sorted kinds ↔ k ∈ kinds := by
  simp [sorted, mem_all]

end Kind

/-! ## Types of a schema -/

namespace Members

/-- The types that a schema names: one name or a list of names. -/
def declaredKinds (ms : Members) : List Kind :=
  match ms.get? "type" with
  | some (.str name) => (Kind.ofName? name).toList
  | some (.arr names) => Kind.sorted (names.filterMap fun name => name.str?.bind Kind.ofName?)
  | _ => []

/-- The types that keywords imply: those with a keyword in use, the integers among the numbers, or else all. -/
def kindsOfKeywords (ms : Members) : List Kind :=
  let used := Kind.all.filter fun k => k.keywords.any ms.has
  if used.isEmpty then Kind.all
  else if used.contains .number then Kind.sorted (.integer :: used)
  else used

/-- The types that a value may have: the named ones, else those of the admitted values, else those that
keywords imply. -/
def inferredKinds (ms : Members) : List Kind :=
  match ms.declaredKinds with
  | k :: rest => k :: rest
  | [] =>
    match ms.get? "const", ms.get? "enum" with
    | some value, _ => [Kind.ofValue value]
    | none, some (.arr values) => Kind.sorted (values.map Kind.ofValue)
    | none, _ => ms.kindsOfKeywords

end Members

end SchemaAccessors
