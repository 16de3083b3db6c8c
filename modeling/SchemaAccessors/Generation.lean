import SchemaAccessors.Draft.Fill
import SchemaAccessors.Render.Language

/-!
# Generating code

A run loads a schema document, drafts types for everything that its root reaches, and renders them in the
target language. A run that fails keeps its trace and what it drafted.
-/

namespace SchemaAccessors

namespace Config

/-- The language of the output. -/
def target (c : Config) : Except Failure Language :=
  match c.language with
  | .arr _ | .obj _ => .error .wrongKind
  | name =>
    match name.str?.bind Language.ofName? with
    | some language => .ok language
    | none => .error (.unsupportedLanguage name.plain)

/-- The name of the namespace that types are declared in. A Java package that is no text is missed only when it
is written out. -/
def namespaceName (c : Config) (l : Language) (moduleName : String) : Except Failure String :=
  match l, c.javaPackage with
  | .python, _ => .ok moduleName
  | .java, .str package => .ok package
  | .java, _ => .error .noSuchPart

end Config

namespace Generation

/-- The name that the generator goes by. -/
def programName : String := "json_schema_types"

def version : String := "1.0.0"

/-- The comment on top of each source, empty if there is to be none. -/
def comment (c : Config) (l : Language) (commandLine : String) : String :=
  if c.addGenerationComment.truthy then
    s!"{l.commentMark} Generated by {programName} v{version} : {commandLine}"
  else ""

/-- The URI of a document that none is given for. -/
def defaultUri : String := "schema.json"

/-- The name of the output for the document in a file. -/
def defaultName (root : SchemaNode) : String :=
  let leaf := Naming.leaf root.uri
  if leaf.isEmpty then "generated" else leaf

end Generation

/-- What a run is about: where documents come from, and how code is made. -/
structure Generation where
  loader : Loader
  config : Config
  /-- The command that the run was started by. -/
  commandLine : String := Generation.programName

namespace Drafting

/-- Drafting before the target language is known. -/
def blank : Drafting := .start .empty (.empty [] [])

/-- Begins a pass over the documents of a store, with a model of its own. -/
def beginPass (loader : Loader) (config : Config) (l : Language) (namespaceName : String) (store : Store) :
    Setting × Drafting :=
  let (model, i) := l.model.withNamespace namespaceName
  (⟨loader, i, config⟩, .start store model)

end Drafting

namespace Generation

/-- The root that loading gives. -/
def root (load : StoreM Entry) : StoreM SchemaNode := do
  match ← load with
  | .node root => return root
  | .plain _ => throw .lostRoot

/-- Drafts types for everything that a root reaches, in an empty model of the target language. -/
def build (g : Generation) (l : Language) (name : String) (root : SchemaNode) : DraftM Unit := do
  let d ← get
  let namespaceName := (g.config.namespaceName l name).toOption.getD ""
  let (s, fresh) := Drafting.beginPass g.loader g.config l namespaceName d.store
  set { fresh with trace := d.trace }
  let _ ← Drafting.complete s root
  Drafting.finish s
  Drafting.note (.generated (← get).model.allTypes.length root.uri)

/-- The sources for everything that a root reaches. Code is never reformatted: where that is asked for, the
trace says so. -/
def sources (g : Generation) (l : Language) (name : String) (root : SchemaNode) : DraftM Render.Sources := do
  g.build l name root
  let _ ← Drafting.lift (g.config.namespaceName l name)
  let files ← Drafting.lift (l.sources (← get).model (comment g.config l g.commandLine))
  if l = .python then
    let formatter ← Drafting.lift g.config.formatter.get
    if formatter.enabled.truthy then files.forM fun _ => Drafting.note .unformatted
  return files

/-- The language and the root for a document. The language is looked at first. -/
def openDocument (g : Generation) (document : Json) (uri : String) : DraftM (Language × SchemaNode) := do
  let l ← Drafting.lift g.config.target
  let root ← Drafting.onStore (root (Store.load document uri))
  return (l, root)

/-- The language and the root for the document in a file. The document is loaded first. -/
def openFile (g : Generation) (path : Files.Path) : DraftM (Language × SchemaNode) := do
  let root ← Drafting.onStore (root (Store.loadFile g.loader path))
  let l ← Drafting.lift g.config.target
  return (l, root)

/-- The sources for a document. -/
def generate (g : Generation) (document : Json) (uri name : String) : DraftM Render.Sources := do
  let (l, root) ← g.openDocument document uri
  g.sources l name root

end Generation

/-- All sources as one text, in the order of their paths. -/
def Render.Sources.joined (sources : Render.Sources) : String :=
  String.intercalate "\n" ((sources.mergeSort fun a b => a.1 ≤ b.1).map (·.2))

end SchemaAccessors
