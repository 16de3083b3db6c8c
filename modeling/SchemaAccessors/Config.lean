import SchemaAccessors.Failure

/-!
# Configurations

A configuration is read from a JSON object. Its values are kept as they are: what kind of value an option
needs shows only where the option is used. A configuration also has members that are no options; a key of
such a name is taken as well, and shadows the member or is refused.
-/

namespace SchemaAccessors

/-- What happens to output files that exist. -/
inductive OutputMode
  | refuse
  | overwrite
  /-- A value that is no mode. It is kept, and nothing is refused under it. -/
  | unknown (value : Json)
deriving BEq

def OutputMode.ofName? : String → Option OutputMode
  | "error" => some .refuse
  | "force" => some .overwrite
  | _ => none

/-- The name of a mode, if it is one. -/
def OutputMode.json : OutputMode → Except Failure Json
  | .refuse => .ok (.str "error")
  | .overwrite => .ok (.str "force")
  | .unknown _ => .error .noSuchPart

structure OutputOptions where
  mode : OutputMode := .refuse
  validateBeforeWrite : Json := .bool true
deriving BEq

structure FormatterOptions where
  enabled : Json := .bool false
  lineLength : Json := .int 100
  targetVersion : Json := .str "py312"
  stringNormalization : Json := .bool true
  magicTrailingComma : Json := .bool true
deriving BEq

/-- A group of options: the options, a value that is no group, or nothing at all. -/
inductive Group (α : Type)
  | options (value : α)
  | raw (value : Json)
  | missing
deriving BEq

/-- The options of a group; there are none in a value that is no group. -/
def Group.get {α : Type} : Group α → Except Failure α
  | options value => .ok value
  | raw _ | missing => .error .noSuchPart

structure Config where
  language : Json := .str "python"
  javaPackage : Json := .str ""
  addGenerationComment : Json := .bool true
  includeSchemaJsonInDocs : Json := .bool true
  strictSchemaShapes : Json := .bool false
  maxNameAttempts : Json := .int 1000
  formatter : Group FormatterOptions := .options {}
  output : Group OutputOptions := .options {}
  /-- Whether a key took the place of the member that writes the configuration out. -/
  unwritable : Bool := false

namespace Config

/-! ## Reading -/

/-- Gives one formatter option a value. -/
def setFormatter (o : FormatterOptions) (key : String) (value : Json) : Except Failure FormatterOptions :=
  match key with
  | "enabled" => .ok { o with enabled := value }
  | "line_length" => .ok { o with lineLength := value }
  | "target_version" => .ok { o with targetVersion := value }
  | "string_normalization" => .ok { o with stringNormalization := value }
  | "magic_trailing_comma" => .ok { o with magicTrailingComma := value }
  | _ => .error .wrongKind

/-- The formatter options of an object, which may hold no other key. -/
def readFormatter (ms : Members) : Except Failure FormatterOptions :=
  ms.foldlM (fun o m => setFormatter o m.1 m.2) {}

/-- The output options of an object. Other keys are overlooked. -/
def readOutput (ms : Members) : Except Failure OutputOptions := do
  let mode ← match ms.get? "mode" with
    | none => pure .refuse
    | some (.str name) =>
      match OutputMode.ofName? name with
      | some mode => pure mode
      | none => throw (.badOutputMode name)
    | some value => pure (.unknown value)
  return { mode, validateBeforeWrite := (ms.get? "validate_before_write").getD (.bool true) }

/-- The configuration whose only members are those of an object: options that are not there have their
first values, and a group that is not there is missing. -/
def ofOwnMembers (ms : Members) : Config :=
  let d : Config := {}
  let option (key : String) (default : Json) : Json := (ms.get? key).getD default
  let group {α : Type} (key : String) : Group α := match ms.get? key with
    | some value => .raw value
    | none => .missing
  { language := option "language" d.language
    javaPackage := option "java_package" d.javaPackage
    addGenerationComment := option "add_generation_comment" d.addGenerationComment
    includeSchemaJsonInDocs := option "include_schema_json_in_docs" d.includeSchemaJsonInDocs
    strictSchemaShapes := option "strict_schema_shapes" d.strictSchemaShapes
    maxNameAttempts := option "max_name_attempts" d.maxNameAttempts
    formatter := group "formatter"
    output := group "output"
    unwritable := ms.has "to_dict" }

/-- Gives a group a value that is no object. A missing group stays missing. -/
def setRaw {α : Type} (group : Group α) (value : Json) : Group α :=
  match group with
  | .missing => .missing
  | _ => .raw value

/-- Gives one key a value. A key that names no member is overlooked. -/
def set (c : Config) (key : String) (value : Json) : Except Failure Config :=
  match key, value with
  | "formatter", .obj ms => do return { c with formatter := .options (← readFormatter ms) }
  | "output", .obj ms => do return { c with output := .options (← readOutput ms) }
  | "formatter", value => .ok { c with formatter := setRaw c.formatter value }
  | "output", value => .ok { c with output := setRaw c.output value }
  | "language", value => .ok { c with language := value }
  | "java_package", value => .ok { c with javaPackage := value }
  | "add_generation_comment", value => .ok { c with addGenerationComment := value }
  | "include_schema_json_in_docs", value => .ok { c with includeSchemaJsonInDocs := value }
  | "strict_schema_shapes", value => .ok { c with strictSchemaShapes := value }
  | "max_name_attempts", value => .ok { c with maxNameAttempts := value }
  | "to_dict", _ => .ok { c with unwritable := true }
  | "__dict__", .obj ms => .ok (ofOwnMembers ms)
  | "__dict__", _ => .error .wrongKind
  | "__class__", _ => .error .wrongKind
  | "__weakref__", _ => .error .noSuchPart
  | _, _ => .ok c

/-- Reads a configuration. -/
def ofJson : Json → Except Failure Config
  | .obj ms => ms.foldlM (fun c m => c.set m.1 m.2) {}
  | _ => .error .noSuchPart

/-! ## Writing -/

/-- The configuration as an object with a member for each option. -/
def toJson (c : Config) : Except Failure Json := do
  if c.unwritable then throw .wrongKind
  let f ← c.formatter.get
  let o ← c.output.get
  let mode ← o.mode.json
  return .obj [
    ("language", c.language), ("java_package", c.javaPackage),
    ("add_generation_comment", c.addGenerationComment),
    ("include_schema_json_in_docs", c.includeSchemaJsonInDocs),
    ("strict_schema_shapes", c.strictSchemaShapes), ("max_name_attempts", c.maxNameAttempts),
    ("formatter", .obj [
      ("enabled", f.enabled), ("line_length", f.lineLength), ("target_version", f.targetVersion),
      ("string_normalization", f.stringNormalization), ("magic_trailing_comma", f.magicTrailingComma)]),
    ("output", .obj [("mode", mode), ("validate_before_write", o.validateBeforeWrite)])]

/-- Whether two configurations have the same options. -/
def sameOptions (a b : Config) : Bool :=
  a.language == b.language && a.javaPackage == b.javaPackage
    && a.addGenerationComment == b.addGenerationComment
    && a.includeSchemaJsonInDocs == b.includeSchemaJsonInDocs
    && a.strictSchemaShapes == b.strictSchemaShapes && a.maxNameAttempts == b.maxNameAttempts
    && a.formatter == b.formatter && a.output == b.output

end Config

end SchemaAccessors
