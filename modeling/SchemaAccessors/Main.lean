import SchemaAccessors.CommandLine.Run

/-!
# The program

The command is a function of the files that it is given. So the program looks at files, runs the command on
what it has seen, and looks at what the run asked for and changed. If there is more to see, it begins anew;
otherwise it makes the changes and prints what the run says.
-/

open SchemaAccessors

namespace SchemaAccessors.Program

/-- The files that have been looked at, and where. -/
structure View where
  files : Files.Tree
  seen : List Files.Location

def pathText (place : Files.Location) : String :=
  "/" ++ String.intercalate "/" place

/-- What is at a path. -/
def look (path : String) : IO (Option Files.Node) := do
  try
    let real ← IO.FS.realPath path
    if ← real.isDir then return some .directory
    else return some (.file (← IO.FS.readBinFile real))
  catch _ => return none

/-- Looks at a place unless that was done before. Tells whether something new is there. -/
def learn (view : View) (place : Files.Location) : IO (View × Bool) := do
  if place.isEmpty || view.seen.contains place then return (view, false)
  let view := { view with seen := place :: view.seen }
  match ← look (pathText place) with
  | some node => return ({ view with files := view.files.put place node }, true)
  | none => return (view, false)

/-- The places on the way to a path, and that of the path itself. -/
def placesTo (path : Files.Path) : List Files.Location :=
  (List.range (path.components.length + 1)).map fun n => Files.Path.collapseFrom [] (path.components.take n)

def learnAll (view : View) (paths : List Files.Path) : IO (View × Bool) := do
  let mut view := view
  let mut found := false
  for place in paths.flatMap placesTo do
    let (next, isNew) ← learn view place
    view := next
    found := found || isNew
  return (view, found)

/-- The paths in some arguments. -/
def pathsIn (directory : Files.Path) (args : List String) : List Files.Path :=
  match CommandLine.Arguments.read args with
  | .ok a => (a.operands ++ (a.value? .config).toList).map fun text => directory.join (Files.Path.ofString text)
  | .error _ => []

/-- What a run has changed. -/
def changes (before after : Files.Tree) : List (Files.Location × Files.Node) :=
  after.nodes.reverse.filter fun (place, node) =>
    match before.node? place, node with
    | some .directory, .directory => false
    | some (.file old), .file new => old != new
    | _, _ => true

/-- The path of a file that a run has missed. -/
def missedPath (directory : Files.Path) : Option Failure → List Files.Path
  | some (.unreadable _ path _) => [directory.join (Files.Path.ofString path)]
  | _ => []

/-- Runs the command on all that it asks to see. -/
partial def settle (directory : Files.Path) (args : List String) (view : View) :
    IO (View × CommandLine.Outcome) := do
  let outcome := CommandLine.run ⟨view.files, directory⟩ args
  let changed := (changes view.files outcome.files).map fun (place, _) => (⟨.single, place⟩ : Files.Path)
  let (next, found) ← learnAll view (missedPath directory outcome.failure? ++ changed)
  if found then settle directory args next else return (view, outcome)

/-- Makes one change. A file is written beside its place first. -/
def commit (place : Files.Location) : Files.Node → IO Unit
  | .directory => IO.FS.createDirAll (pathText place)
  | .file content => do
    let temporary := pathText (place.dropLast ++ ["." ++ place.getLast?.getD "" ++ ".tmp"])
    IO.FS.writeBinFile temporary content
    IO.FS.rename temporary (pathText place)

def run (args : List String) : IO UInt32 := do
  let directory := Files.Path.ofString (← IO.currentDir).toString
  let (view, _) ← learnAll ⟨.empty, []⟩ (pathsIn directory args)
  let (view, outcome) ← settle directory args view
  for (place, node) in changes view.files outcome.files do
    commit place node
  (← IO.getStdout).putStr outcome.stdout
  (← IO.getStderr).putStr outcome.stderr
  if let some f := outcome.failure? then
    unless f.isReported do (← IO.getStderr).putStr (f.message ++ "\n")
  return outcome.exitCode.toUInt32

end SchemaAccessors.Program

def main (args : List String) : IO UInt32 :=
  SchemaAccessors.Program.run args
