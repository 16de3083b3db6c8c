import SchemaAccessors.Json.Printer
import SchemaAccessors.Render.Layout
import SchemaAccessors.Wrapper.Model

/-!
# Java code

A namespace becomes a package, and each of its types a file with one class; the types inside it are static
member classes. Raw values are those of the library `org.json`, whose lookups come in two forms: one that
fails where nothing is found, and one that takes a default.
-/

namespace SchemaAccessors.Render.Java

/-- Names of classes that the code uses itself. -/
def reservedTypes : List String :=
  ["Boolean", "Integer", "JSONArray", "JSONObject", "Number", "Object", "String"]

/-- A method that no class can define again. -/
def reservedMembers : List String := ["getClass"]

/-- The type of raw values. -/
def rawType : RawKind → String
  | .array => "JSONArray"
  | .boolean => "boolean"
  | .integer => "int"
  | .null => "Object"
  | .number => "Number"
  | .object => "JSONObject"
  | .string => "String"
  | .any => "Object"

/-- How the name of a lookup for values of a kind ends, if there is such a lookup. -/
def lookupKind : RawKind → Option String
  | .array => some "JSONArray"
  | .boolean => some "Boolean"
  | .integer => some "Int"
  | .number => some "Number"
  | .object => some "JSONObject"
  | .string => some "String"
  | .null | .any => none

/-- The name of a type. One directly in a package is named through it. -/
def typeName (m : Model) (id : TypeId) : String :=
  match m.enclosing id, m.namespaceOf? id with
  | [], some package => if package.isEmpty then m.qualifiedName id else s!"{package}.{m.nameOf id}"
  | _, _ => m.qualifiedName id

def typeText (m : Model) (r : TypeRef) : String :=
  match r.wrapper? with
  | some id => typeName m id
  | none => rawType r.raw

/-! ## Default values -/

def isInt (n : Int) : Bool := -2147483648 ≤ n && n ≤ 2147483647

def isLong (n : Int) : Bool := -9223372036854775808 ≤ n && n ≤ 9223372036854775807

/-- A double-precision number. Those without digits are constants of a class. -/
def double : Binary64 → String
  | .nan => "Double.NaN"
  | .infinite false => "Double.POSITIVE_INFINITY"
  | .infinite true => "Double.NEGATIVE_INFINITY"
  | x => x.text Binary64.plainLayout

/-- The double-precision number nearest to an integer. -/
def nearest (n : Int) : Except Failure Binary64 :=
  match Binary64.ofInt? n with
  | some x => .ok x
  | none => .error .integerTooLarge

/-- A default value. An integer is written in the smallest type that holds it. -/
def literal : Json → Except Failure String
  | .bool b => .ok (if b then "true" else "false")
  | .int n => do
    if isInt n then return toString n
    else if isLong n then return s!"{n}L"
    else return double (← nearest n)
  | .float x => .ok (double x)
  | value => .ok value.compact

/-- A default value for a lookup of some kind. Where an `int` is looked up, a number becomes one: as it is if
it is one, and by a conversion of the nearest double-precision number otherwise. -/
def literalFor (kind : RawKind) (value : Json) : Except Failure String :=
  match kind, value with
  | .integer, .int n => do
    if isInt n then return toString n
    else return "(int) " ++ double (← nearest n)
  | .integer, .float x =>
    match x.toInt? with
    | some n => .ok (if isInt n then toString n else "(int) " ++ double x)
    | none => .ok ("(int) " ++ double x)
  | _, value => literal value

/-! ## Expressions -/

/-- A field as a value of a kind, with a cast if it is of another. -/
def castField (f : Field) (kind : RawKind) : String :=
  if f.type.raw = kind then f.name else s!"(({rawType kind}) {f.name})"

/-- A lookup in a target. A kind without a lookup of its own has no form with a default, so the default is
chosen by a test. -/
def lookup (target key : String) (kind : RawKind) : Option Json → Except Failure String
  | none =>
    let name := (lookupKind kind).getD ""
    .ok s!"{target}.get{name}({key})"
  | some value => do
    let default ← literalFor kind value
    match lookupKind kind with
    | none => return s!"{target}.opt({key}) != null ? {target}.get({key}) : {default}"
    | some name => return s!"{target}.opt{name}({key}, {default})"

/-- The text of an expression. -/
def expr (m : Model) : Expr → Except Failure String
  | .field f => .ok f.name
  | .literal value => literal value
  | .property f key kind default? => lookup (castField f .object) (Json.encodeString key) kind default?
  | .item f index kind default? => lookup (castField f .array) index.name kind default?
  | .presence f key => .ok s!"{castField f .object}.has({Json.encodeString key})"
  | .length f => .ok s!"{castField f .array}.length()"
  | .construct id argument => do
    let argument ← expr m argument
    return s!"new {typeName m id}({argument})"
  | .foreign value => .error (.notAnExpression value)

/-! ## Comments -/

/-- The text before the first line that begins with an opening brace, and the text from that brace on. -/
def cutSchema : List Char → List Char × List Char
  | '\n' :: '\x7b' :: rest => ([], '\x7b' :: rest)
  | c :: rest => let (before, schema) := cutSchema rest; (c :: before, schema)
  | [] => ([], [])

/-- Characters that would not mean themselves in a comment, which is HTML. The end of a comment is broken up. -/
def escapeDoc : List Char → List Char
  | '&' :: rest => "&amp;".toList ++ escapeDoc rest
  | '<' :: rest => "&lt;".toList ++ escapeDoc rest
  | '>' :: rest => "&gt;".toList ++ escapeDoc rest
  | '*' :: '/' :: rest => "*&#47;".toList ++ escapeDoc rest
  | c :: rest => c :: escapeDoc rest
  | [] => []

def docLine (line : String) : String :=
  Text.trimRight (" * " ++ String.ofList (escapeDoc line.toList))

/-- The lines of a documentation comment, with the schema in a block of its own. -/
def docComment (doc : String) : List String :=
  let (text, schema) := cutSchema doc.toList
  -- A brace with nothing behind it is no schema, and is dropped.
  let block := if schema.length ≤ 1 then []
    else [" * <pre>"] ++ (Text.lines (String.ofList schema)).map docLine ++ [" * </pre>"]
  ["/**"] ++ (Text.lines (String.ofList text)).map docLine ++ block ++ [" */"]

/-! ## Members -/

def parameters (m : Model) (ps : List Parameter) : String :=
  String.intercalate ", " (ps.map fun p => s!"{typeText m p.type} {p.name}")

def fieldLine (m : Model) (f : Field) : String :=
  let final := if f.isFinal then " final" else ""
  s!"{f.visibility.word}{final} {typeText m f.type} {f.name};"

def constructorLines (m : Model) (name : String) (c : Constructor) : List String :=
  [s!"{c.visibility.word} {name}({parameters m c.parameters}) \x7b"]
    ++ indent (c.assignments.map fun (field, parameter) => s!"this.{field} = {parameter};") ++ ["\x7d"]

def methodLines (m : Model) (method : Method) : Except Failure (List String) := do
  let some body := method.body? | throw (.noBody method.name)
  let params := parameters m method.parameters
  let value ← expr m body
  return [s!"{method.visibility.word} {typeText m method.returns} {method.name}({params}) \x7b",
    s!"{indentUnit}return {value};", "\x7d"]

/-! ## Classes and files -/

mutual

/-- The lines of a class. -/
def classLines (m : Model) : TypeTree → Except Failure (List String)
  | .node _ t inner => do
    let doc := if t.doc.isEmpty then [] else docComment t.doc
    let fields := if t.fields.isEmpty then [] else [t.fields.map (fieldLine m)]
    let methods ← t.methods.mapM (methodLines m)
    let nested ← classesLines m inner
    let body := dropEmptyEnd
      (spaced (fields ++ t.constructors.map (constructorLines m t.name) ++ methods ++ nested))
    let modifiers := if t.isTopLevel then "public" else "public static"
    return doc ++ [s!"{modifiers} class {t.name} \x7b"] ++ indent body ++ ["\x7d"]

def classesLines (m : Model) : List TypeTree → Except Failure (List (List String))
  | [] => .ok []
  | tree :: rest => do
    let lines ← classLines m tree
    return lines :: (← classesLines m rest)

end

/-- What stands before the class. -/
def preamble (comment package : String) : String :=
  (if comment.isEmpty then "" else comment ++ "\n")
    ++ (if package.isEmpty then "" else "package " ++ package ++ ";\n\n")
    ++ "import org.json.JSONArray;\nimport org.json.JSONObject;\n"

/-- The path of the file for a class, in the directory for its package. -/
def filePath (package name : String) : String :=
  let directory := String.ofList (package.toList.map fun c => if c = '.' then '/' else c)
  if directory.isEmpty then name ++ ".java" else directory ++ "/" ++ name ++ ".java"

/-- The files of a model. -/
def sources (m : Model) (comment : String) : Except Failure Sources :=
  m.namespaces.zipIdx.foldlM (fun sources (package, i) =>
    (m.trees i).foldlM (fun sources tree => do
      let .node _ t _ := tree
      let lines ← classLines m tree
      return sources.put (filePath package t.name) (preamble comment package ++ "\n" ++ unlines lines ++ "\n"))
      sources) []

end SchemaAccessors.Render.Java
