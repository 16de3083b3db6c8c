import SchemaAccessors.Files.Tree
import SchemaAccessors.Json.Inline
import SchemaAccessors.Json.Reader
import SchemaAccessors.Text.CodePoint
import SchemaAccessors.Uri.Reference

/-!
# Failures

Everything that can stop a run, by cause. The wording of each cause is said once. Some causes are reported to
the user as plain errors; the others are faults of a configuration or of the environment.
-/

namespace SchemaAccessors

/-- Which part of a schema an entry is. -/
inductive EntryName
  | property (name : String)
  | item (position : Nat)

def EntryName.text : EntryName → String
  | property name => s!"property {Text.quoted name}"
  | item position => s!"item {position}"

/-- A property or item of a schema that is no schema with a node. -/
structure MalformedEntry where
  name : EntryName
  uri : String
  value : Json

def MalformedEntry.message (e : MalformedEntry) : String :=
  s!"Skipping {e.name.text} of {e.uri}: {e.value.inline} is not an object schema"

/-- Why a run stops. -/
inductive Failure
  /-- `type` is neither a name nor a list. -/
  | invalidType (uri : String) (value : Json)
  /-- `type` holds something other than the name of a primitive type. -/
  | unknownType (uri : String) (name : Json)
  | notAnObject (uri : String) (value : Json)
  | unresolved (uri : String)
  /-- References lead back to a reference that has been followed. -/
  | endless (uri : String)
  | notFetchable (uri : String)
  | unreadable (uri : String) (path : String) (fault : Files.Fault)
  | notJson (uri : String) (error : Json.ReadError)
  | badUri (fault : Uri.Fault)
  /-- A key cannot be part of a URI. -/
  | unencodable (fault : Unencodable)
  /-- A document was refused before its root was indexed, and is asked for again. -/
  | lostRoot
  | notText
  | nullInPath
  /-- A bound on the work was reached before the work was done. -/
  | exhausted
  /-- A type is named that is not primitive. -/
  | unknownKind (name : Json)
  | unsupportedLanguage (name : String)
  | alreadyRegistered (uri : String)
  | noTypeName (uri : String)
  | noUnenclosedName (uri : String)
  | noMemberName (suffix typeName : String)
  | malformedEntry (entry : MalformedEntry)
  /-- A URI was registered without a draft, and the draft is needed. -/
  | noDraft
  | typeExists (name : String)
  | memberExists (typeName name : String)
  | noBody (method : String)
  | notAnExpression (value : Json)
  | integerTooLarge
  | overlong (number : Number.Overlong)
  | nullInCode
  | tooDeep (line : Nat)
  | noTypeDefinitions
  | unbalancedBraces (opening closing : Nat)
  | notOneModule (count : Nat)
  | outputExists (paths : List String)
  | file (fault : Files.Fault)
  /-- A setting has a value of a kind that its use does not admit. -/
  | wrongKind
  /-- A setting is asked for a part that its value does not have. -/
  | noSuchPart
  | badOutputMode (name : String)
  | notJsonConfig (error : Json.ReadError)
deriving Inhabited

namespace Failure

/-- The families of failures. -/
inductive Family
  | schema
  | generation
  | typeName
  | memberName
  | rendering
  | output
  | value
  | overflow
  | kind
  | part
  | key
  | json
  | encoding
  | surrogate
  | file (fault : Files.Fault)
  | bound
deriving DecidableEq, Repr

def family : Failure → Family
  | invalidType .. | unknownType .. | notAnObject .. | unresolved _ | endless _ | notFetchable _ | unreadable ..
  | notJson .. => .schema
  | unknownKind _ | unsupportedLanguage _ | alreadyRegistered _ | noTypeName _ | noUnenclosedName _
  | noMemberName .. | malformedEntry _ => .generation
  | typeExists _ => .typeName
  | memberExists .. => .memberName
  | noBody _ | notAnExpression _ | tooDeep _ | noTypeDefinitions | unbalancedBraces .. => .rendering
  | notOneModule _ | outputExists _ => .output
  | badUri _ | nullInPath | overlong _ | nullInCode | badOutputMode _ => .value
  | integerTooLarge => .overflow
  | wrongKind => .kind
  | noSuchPart | noDraft => .part
  | lostRoot => .key
  | notJsonConfig _ => .json
  | notText => .encoding
  | unencodable _ => .surrogate
  | file fault => .file fault
  | exhausted => .bound

/-- Whether the failure is reported to the user as a plain error. -/
def isReported (f : Failure) : Bool :=
  match f.family with
  | .schema | .generation | .typeName | .memberName | .rendering | .output => true
  | _ => false

/-- What a file operation says about a path. -/
def fileMessage (fault : Files.Fault) (path : String) : String :=
  s!"[Errno {fault.code}] {fault.reason}: {Text.quoted path}"

def cannotLoad (uri reason : String) : String :=
  s!"Cannot load schema document {Text.quoted uri}: {reason}"

/-- The failure to read a text as JSON: `malformed` says what it is for a text that is none. A number with too
many digits is the same failure in every text. -/
def ofReadError (malformed : Json.ReadError → Failure) (e : Json.ReadError) : Failure :=
  match e.fault with
  | .overlong number => .overlong number
  | _ => malformed e

/-- The wording of a failure. A value in it is meant to be one that can be shown. -/
def message : Failure → String
  | invalidType uri value => s!"Invalid \"type\" at {Text.quoted uri}: {value.inline}"
  | unknownType uri name => s!"Unknown type {name.inline} at {Text.quoted uri}"
  | notAnObject uri value =>
    s!"Schema document {Text.quoted uri} must be a JSON object, got {value.kindName}"
  | unresolved uri => s!"Cannot resolve $ref {Text.quoted uri}"
  | endless uri => s!"$ref cycle never reaches a schema: {Text.quoted uri}"
  | notFetchable uri => cannotLoad uri "only file: URIs can be fetched"
  | unreadable uri path fault => cannotLoad uri (fileMessage fault path)
  | notJson uri error => cannotLoad uri error.message
  | badUri fault => fault.message
  | unencodable fault => fault.message
  | lostRoot => "The root of the document was not indexed"
  | notText => "The file is not UTF-8 text"
  | nullInPath => "embedded null byte"
  | exhausted => "The bound on the work was reached"
  | unknownKind name => s!"Invalid schema type {name.inline}"
  | unsupportedLanguage name => s!"Language not supported: {name}"
  | alreadyRegistered uri => s!"A builder for {Text.quoted uri} is already registered"
  | noTypeName uri => s!"Could not find a free type name for {Text.quoted uri}"
  | noUnenclosedName uri => s!"Could not find a name for {Text.quoted uri} that no enclosing type uses"
  | noMemberName suffix typeName =>
    s!"Could not find a free member name for {Text.quoted suffix} on {Text.quoted typeName}"
  | malformedEntry entry => entry.message
  | noDraft => "No draft is registered"
  | typeExists name => s!"A type named {Text.quoted name} already exists in this container"
  | memberExists typeName name => s!"Type {Text.quoted typeName} already has a member named {Text.quoted name}"
  | noBody method => s!"Method {Text.quoted method} has no body"
  | notAnExpression value => s!"Cannot render expression {value.inline}"
  | integerTooLarge => "int too large to convert to float"
  | overlong number => number.message
  | nullInCode => "source code string cannot contain null bytes"
  | tooDeep line =>
    s!"Generated Python code is not valid: too many levels of indentation (<unknown>, line {line})"
  | noTypeDefinitions => "Generated Java code has no type definitions"
  | unbalancedBraces opening closing =>
    s!"Generated Java code has unbalanced braces: {opening} open, {closing} close"
  | notOneModule count => s!"Expected one Python module, got {count}"
  | outputExists paths =>
    "Output file already exists: " ++ String.intercalate ", " paths ++ ". Use force mode to overwrite."
  | file fault => fault.reason
  | wrongKind => "The setting has a value of the wrong kind"
  | noSuchPart => "The setting has no such part"
  | badOutputMode name => s!"{Text.quoted name} is not a valid OutputMode"
  | notJsonConfig error => error.message

end Failure

/-- The path itself. One with a null character in it is not handed to the system. -/
def Files.Path.passable (p : Files.Path) : Except Failure Files.Path :=
  if p.components.any (·.contains '\x00') then .error .nullInPath else .ok p

end SchemaAccessors
