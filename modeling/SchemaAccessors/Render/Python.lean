import SchemaAccessors.Json.Printer
import SchemaAccessors.Naming
import SchemaAccessors.Render.Layout
import SchemaAccessors.Wrapper.Model

/-!
# Python code

A namespace becomes one module and a type a class, with the types inside it as nested classes. Raw values are
the values of Python's own JSON decoder.
-/

namespace SchemaAccessors.Render.Python

/-- Names that the module uses itself, and keywords with a capital. -/
def reservedTypes : List String := ["Any", "False", "None", "True"]

/-- The type of raw values. -/
def rawType : RawKind → String
  | .array => "list[Any]"
  | .boolean => "bool"
  | .integer => "int"
  | .null => "None"
  | .number => "float"
  | .object => "dict[str, Any]"
  | .string => "str"
  | .any => "Any"

def typeText (m : Model) (r : TypeRef) : String :=
  match r.wrapper? with
  | some id => m.qualifiedName id
  | none => rawType r.raw

/-! ## Expressions -/

/-- A default value. The numbers without digits are written as conversions of their names, and an integer, which is
meant to be one that was read, with all of its digits. -/
def literal : Json → String
  | .str s => Json.encodeString s
  | .float (.finite n s e) => (Binary64.finite n s e).text Binary64.plainLayout
  | .float x => "float(\"" ++ x.text Binary64.plainLayout ++ "\")"
  | value => value.inline

def fieldText (f : Field) : String :=
  "self._" ++ Naming.snake f.name

/-- The text of an expression. -/
def expr (m : Model) : Expr → Except Failure String
  | .field f => .ok (fieldText f)
  | .literal value => .ok (literal value)
  | .property f key _ none => .ok s!"{fieldText f}[{Json.encodeString key}]"
  | .property f key _ (some value) => .ok s!"{fieldText f}.get({Json.encodeString key}, {literal value})"
  | .item f index _ none => .ok s!"{fieldText f}[{Naming.snake index.name}]"
  | .item f index _ (some value) =>
    let (target, i) := (fieldText f, Naming.snake index.name)
    .ok s!"{target}[{i}] if 0 <= {i} < len({target}) else {literal value}"
  | .presence f key => .ok s!"{Json.encodeString key} in {fieldText f}"
  | .length f => .ok s!"len({fieldText f})"
  | .construct id argument => do
    let argument ← expr m argument
    return s!"{m.qualifiedName id}({argument})"
  | .foreign value => .error (.notAnExpression value)

/-! ## Members -/

/-- A backslash and a group of three quotation marks would not mean themselves in a docstring. -/
def escapeDoc : List Char → List Char
  | '\\' :: rest => '\\' :: '\\' :: escapeDoc rest
  | '"' :: '"' :: '"' :: rest => '\\' :: '"' :: '\\' :: '"' :: '\\' :: '"' :: escapeDoc rest
  | c :: rest => c :: escapeDoc rest
  | [] => []

/-- The lines of a docstring. -/
def docstring (doc : String) : List String :=
  ["\"\"\""] ++ Text.lines (String.ofList (escapeDoc doc.toList)) ++ ["\"\"\""]

def parameter (m : Model) (p : Parameter) : String :=
  s!"{Naming.snake p.name}: {typeText m p.type}"

/-- Parameters behind the receiver. -/
def parameters (m : Model) (ps : List Parameter) : String :=
  String.intercalate ", " ("self" :: ps.map (parameter m))

def constructorLines (m : Model) (c : Constructor) : List String :=
  let assignments := c.assignments.map fun (field, parameter) =>
    s!"self._{Naming.snake field} = {Naming.snake parameter}"
  s!"def __init__({parameters m c.parameters}) -> None:"
    :: indent (if assignments.isEmpty then ["pass"] else assignments)

def methodLines (m : Model) (method : Method) : Except Failure (List String) := do
  let some body := method.body? | throw (.noBody method.name)
  let value ← expr m body
  return [s!"def {method.name}({parameters m method.parameters}) -> {typeText m method.returns}:",
    s!"{indentUnit}return {value}"]

/-! ## Classes and modules -/

mutual

/-- The lines of a class. -/
def classLines (m : Model) : TypeTree → Except Failure (List String)
  | .node _ t inner => do
    let doc := if t.doc.isEmpty then [] else [docstring t.doc]
    let methods ← t.methods.mapM (methodLines m)
    let nested ← classesLines m inner
    let body := dropEmptyEnd (spaced (doc ++ t.constructors.map (constructorLines m) ++ methods ++ nested))
    return s!"class {t.name}:" :: indent (if body.isEmpty then ["pass"] else body)

def classesLines (m : Model) : List TypeTree → Except Failure (List (List String))
  | [] => .ok []
  | tree :: rest => do
    let lines ← classLines m tree
    return lines :: (← classesLines m rest)

end

/-- What stands before the classes. -/
def preamble (comment : String) : String :=
  (if comment.isEmpty then "" else comment ++ "\n")
    ++ "from __future__ import annotations\n\nfrom typing import Any\n"

/-- The name of a module for a namespace without a name. -/
def unnamedModule : String := "generated"

/-- The modules of a model. -/
def sources (m : Model) (comment : String) : Except Failure Sources :=
  m.namespaces.zipIdx.foldlM (fun sources (name, i) => do
    let classes ← classesLines m (m.trees i)
    let body := if classes.isEmpty then ""
      else "\n\n" ++ String.intercalate "\n\n\n" (classes.map unlines) ++ "\n"
    return sources.put ((if name.isEmpty then unnamedModule else name) ++ ".py") (preamble comment ++ body)) []

end SchemaAccessors.Render.Python
