import SchemaAccessors.CommandLine.Usage
import SchemaAccessors.Generation
import SchemaAccessors.Output.Write
import SchemaAccessors.Text.Terminal

/-!
# Running the command

A run reads its arguments, then the configuration, and generates and writes the sources. All of it is a
function of the arguments, the files and the working directory.
-/

namespace SchemaAccessors.CommandLine

/-! ## What is asked for -/

structure Request where
  name? : Option String
  config? : Option Files.Path
  language? : Option String
  package? : Option String
  format : Bool
  force : Bool
  verbose : Bool
  path : Files.Path
  output : Files.Path

/-- The files and the directory that a run begins with. -/
structure Surroundings where
  files : Files.Tree
  directory : Files.Path

/-- Why nothing is asked for. -/
inductive Refusal
  /-- The arguments are at fault, and the user is told how. -/
  | usage (error : UsageError)
  /-- A path cannot be looked for at all. -/
  | failure (cause : Failure)

namespace Surroundings

/-- The path that an argument names. -/
def resolve (s : Surroundings) (text : String) : Except Refusal Files.Path := do
  let path ← (Files.Path.ofString text).passable.mapError .failure
  return Files.Path.resolve s.directory path

/-- Looks at the value of an option. -/
def checkOption (s : Surroundings) (a : Arguments) (o : OptionName) : Except Refusal Unit :=
  match o, a.value? o with
  | .config, some path => do
    if !s.files.has (← s.resolve path) then
      throw (.usage (.missingPath (Text.quoted "--config" ++ " / " ++ Text.quoted "-c") "Path" path))
  | .language, some word =>
    if languageNames.contains word then .ok () else .error (.usage (.unknownLanguage word))
  | _, _ => .ok ()

/-- The path of the schema. -/
def schemaPath (s : Surroundings) (text : String) : Except Refusal Files.Path := do
  let parameter := Text.quoted "PATH"
  let path ← s.resolve text
  if !s.files.has path then throw (.usage (.missingPath parameter "File" text))
  if s.files.hasDirectory path then throw (.usage (.directoryPath parameter "File" text))
  return path

/-- What the arguments ask for. Options are looked at in the order in which they come up, then the operands. -/
def request (s : Surroundings) (a : Arguments) : Except Refusal Request := do
  a.given.forM (s.checkOption a)
  match a.operands with
  | [] => throw (.usage (.missingOperand "PATH"))
  | path :: rest =>
    let path ← s.schemaPath path
    match rest with
    | [] => throw (.usage (.missingOperand "OUTPUT"))
    | output :: extra =>
      let output ← s.resolve output
      if !extra.isEmpty then throw (.usage (.extraOperands extra))
      return {
        name? := a.value? .name
        config? := ← (a.value? .config).mapM s.resolve
        language? := a.value? .language
        package? := a.value? .package
        format := a.has .format
        force := a.has .force
        verbose := a.has .verbose
        path
        output }

end Surroundings

namespace Request

/-- An argument without the directories that an absolute path names. -/
def shorten (text : String) : String :=
  let path := Files.Path.ofString text
  if path.isAbsolute then path.name else text

/-- An option with its value, unless that is empty. -/
def valued (o : OptionName) (value? : Option String) : List String :=
  match value? with
  | some value => if value.isEmpty then [] else [o.long, shorten value]
  | none => []

def flagged (o : OptionName) (isOn : Bool) : List String :=
  if isOn then [o.long] else []

/-- The command in the form in which it is recorded. -/
def commandLine (r : Request) : String :=
  String.intercalate " " (
    [Generation.programName, shorten r.path.text, shorten r.output.text]
      ++ valued .name r.name? ++ valued .config (r.config?.map Files.Path.text) ++ valued .language r.language?
      ++ valued .package r.package? ++ flagged .format r.format ++ flagged .force r.force
      ++ flagged .verbose r.verbose)

/-- Reads a configuration file. -/
def readConfig (files : Files.Tree) (path : Files.Path) : Except Failure Config := do
  let content ← (files.read path).mapError .file
  let text ← Loader.textOf content
  Config.ofJson (← (Json.parse text).mapError (.ofReadError .notJsonConfig))

/-- The configuration of a run: options overrule the configuration file. -/
def config (r : Request) (files : Files.Tree) : Except Failure Config := do
  let mut c : Config ← match r.config? with
    | some path => readConfig files path
    | none => pure {}
  if let some language := r.language? then c := { c with language := .str language }
  if let some package := r.package? then c := { c with javaPackage := .str package }
  if r.format then
    let formatter ← c.formatter.get
    c := { c with formatter := .options { formatter with enabled := .bool true } }
  if r.force then
    let output ← c.output.get
    c := { c with output := .options { output with mode := .overwrite } }
  return c

end Request

/-! ## The run -/

/-- What a run leaves behind. Paths and reports are said without the sequences that a terminal obeys; the log says
all that it is given. -/
structure Outcome where
  exitCode : Nat
  stdout : String
  stderr : String
  files : Files.Tree
  /-- The failure that ended the run, reported or not. -/
  failure? : Option Failure := none

/-- Generates and writes the sources, and gives the paths written. -/
def Request.perform (r : Request) (s : Surroundings) (c : Config) :
    Except Failure (List Files.Path) × Output.Disk :=
  let g : Generation := ⟨⟨[], s.files, s.directory⟩, c, r.commandLine⟩
  let steps : DraftM (Language × Render.Sources) := do
    let (l, root) ← g.openFile r.path
    let sources ← g.sources l (r.name?.getD (Generation.defaultName root)) root
    return (l, sources)
  let (result, d) := steps.run.run .blank
  match result with
  | .error f => (.error f, ⟨s.files, d.trace⟩)
  | .ok (l, sources) => (Output.writeAll r.output (some l) sources c.output).run.run ⟨s.files, d.trace⟩

/-- Does what is asked for. -/
def Request.run (r : Request) (s : Surroundings) : Outcome :=
  match r.config s.files with
  | .error f => { exitCode := 1, stdout := "", stderr := "", files := s.files, failure? := some f }
  | .ok c =>
    let (result, disk) := r.perform s c
    let log := disk.trace.log r.verbose
    match result with
    | .ok paths =>
      let list := String.join (paths.map (·.text ++ "\n"))
      { exitCode := 0, stdout := Text.withoutSequences list, stderr := log, files := disk.files }
    | .error f =>
      let report := if f.isReported then s!"Error: {f.message}\n" else ""
      { exitCode := 1, stdout := "", stderr := log ++ Text.withoutSequences report, files := disk.files
        failure? := some f }

/-- What a run leaves behind that has done nothing. -/
def Refusal.outcome (s : Surroundings) : Refusal → Outcome
  | usage e => { exitCode := 2, stdout := "", stderr := Text.withoutSequences e.report, files := s.files }
  | failure f => { exitCode := 1, stdout := "", stderr := "", files := s.files, failure? := some f }

/-- Runs the command. -/
def run (s : Surroundings) (args : List String) : Outcome :=
  match Arguments.read args with
  | .error e => (Refusal.usage e).outcome s
  | .ok a =>
    if a.has .help then { exitCode := 0, stdout := helpText, stderr := "", files := s.files }
    else match s.request a with
      | .error refusal => refusal.outcome s
      | .ok r => r.run s

end SchemaAccessors.CommandLine
