import SchemaAccessors.Config
import SchemaAccessors.Output.Check
import SchemaAccessors.Trace

/-!
# Writing sources

A Python module is written to the output path itself, and Java sources below it. Unless files may be
overwritten, nothing is written if one of them exists. Each file is replaced as a whole: it is written under
another name in the same directory, checked, and moved into place. A failure leaves the files before it
written, and the directories made.
-/

namespace SchemaAccessors.Output

/-- The files in the course of writing, and what is recorded of it. -/
structure Disk where
  files : Files.Tree
  trace : Trace

/-- Steps of writing. A step that fails keeps the changes made before. -/
abbrev WriteM := ExceptT Failure (StateM Disk)

def lift {α : Type} (result : Except Failure α) : WriteM α :=
  ExceptT.mk (pure result)

/-- Makes a directory and those on the way to it. -/
def makeDirectories (path : Files.Path) : WriteM Unit := do
  let path ← lift path.passable
  let (files, fault?) := (← get).files.makeDirectories path
  modify fun d => { d with files }
  match fault? with
  | some fault => throw (.file fault)
  | none => return

/-- A check of code. -/
abbrev Check := String → Except Failure Unit

/-- The name that a file has in the making, numbered with eight digits. -/
def temporaryName (name : String) (number : Nat) : String :=
  let digits := Nat.toDigits 10 number
  s!".{name}." ++ String.ofList (List.replicate (8 - digits.length) '0' ++ digits) ++ ".tmp"

/-- Makes a file in a directory under the first free name in the making, `attempts` of them at most. -/
def createTemporary (directory : Files.Path) (name : String) (content : ByteArray) :
    (attempts : Nat) → (number : Nat) → WriteM Files.Path
  | 0, _ => throw (.file .present)
  | attempts + 1, number => do
    let path := directory.join ⟨.relative, [temporaryName name number]⟩
    match (← get).files.createFile path content with
    | .ok files =>
      modify fun d => { d with files }
      return path
    | .error .present => createTemporary directory name content attempts (number + 1)
    | .error fault => throw (.file fault)

/-- Changes the files, unless that fails. -/
def change (f : Files.Tree → Except Files.Fault Files.Tree) : WriteM Unit := do
  let files ← lift ((f (← get).files).mapError .file)
  modify fun d => { d with files }

/-- Writes one file. The file in the making is taken away if it fails the check or cannot be moved into
place. -/
def write (check : Check) (path : Files.Path) (content : String) : WriteM Unit := do
  makeDirectories path.parent
  let path ← lift path.passable
  let temporary ← createTemporary path.parent path.name content.toUTF8 ((← get).files.nodes.length + 1) 0
  try
    lift (check content)
    change (·.moveFile temporary path)
  catch failure =>
    change (·.removeFile temporary)
    throw failure
  modify fun d => { d with trace := d.trace.push (.wrote path.text) }

/-- Where sources go, each with its content. -/
def targets (output : Files.Path) (l : Option Language) (sources : Render.Sources) :
    Except Failure (Table Files.Path String) :=
  match l, sources with
  | some .python, [(_, content)] => .ok [(output, content)]
  | some .python, sources => .error (.notOneModule sources.length)
  | _, sources =>
    .ok (.ofEntries (sources.map fun (path, content) => (output.join (Files.Path.ofString path), content)))

/-- Whether a file is there. A path with a null character leads nowhere; one that is too long for a path, or has
a name too long, cannot be looked for. -/
def isThere (files : Files.Tree) (path : Files.Path) : Except Failure Bool :=
  match path.passable, files.look path with
  | .error _, _ => .ok false
  | _, .ok _ => .ok true
  | _, .error .nameTooLong => .error (.file .nameTooLong)
  | _, .error _ => .ok false

/-- The options of a group that may be left out. -/
def optionsOf (group : Group OutputOptions) : Except Failure OutputOptions :=
  match group with
  | .raw value => if value.truthy then .error .noSuchPart else .ok {}
  | group => group.get

/-- The check that is wanted: the given one, or none. -/
def Check.orNone (check : Check) (isWanted : Bool) : Check :=
  if isWanted then check else fun _ => .ok ()

/-- Writes all sources with a check for their language, and gives the paths of their files. -/
def writeAllWith (check : Check) (output : Files.Path) (l : Option Language) (sources : Render.Sources)
    (group : Group OutputOptions) : WriteM (List Files.Path) := do
  let files ← lift (targets output l sources)
  let options ← lift (optionsOf group)
  if let .refuse := options.mode then
    let present ← files.filterM fun (path, _) => do lift (isThere (← get).files path)
    if !present.isEmpty then throw (.outputExists (present.map (·.1.text)))
  files.forM fun (path, content) => write (check.orNone options.validateBeforeWrite.truthy) path content
  return files.map (·.1)

/-- Writes all sources, and gives the paths of their files. -/
def writeAll (output : Files.Path) (l : Option Language) : Render.Sources → Group OutputOptions →
    WriteM (List Files.Path) :=
  writeAllWith (check l) output l

end SchemaAccessors.Output
