import SchemaAccessors.Files.Path
import SchemaAccessors.Table

/-!
# File trees

A state of a file system: which directories and files there are, and what the files hold. There are no links.
Each operation fails for one of a few reasons, and changes one place at most.
-/

namespace SchemaAccessors.Files

/-- Where something is: the names on the way from the root directory. -/
abbrev Location := List String

inductive Node
  | directory
  | file (content : ByteArray)

/-- A state of a file system. The root directory is always there. -/
structure Tree where
  nodes : List (Location × Node)

/-- Why an operation fails. -/
inductive Fault
  | missing
  | present
  | notDirectory
  | isDirectory
  | nameTooLong
  | busy
deriving DecidableEq, Repr

def Fault.code : Fault → Nat
  | missing => 2
  | present => 17
  | notDirectory => 20
  | isDirectory => 21
  | nameTooLong => 36
  | busy => 16

def Fault.reason : Fault → String
  | missing => "No such file or directory"
  | present => "File exists"
  | notDirectory => "Not a directory"
  | isDirectory => "Is a directory"
  | nameTooLong => "File name too long"
  | busy => "Device or resource busy"

/-- Most octets that a name may have. -/
def longestName : Nat := 255

/-- Most octets that the text of a path may have. -/
def longestPath : Nat := 4095

namespace Tree

def empty : Tree := ⟨[]⟩

/-- What is at a location. -/
def node? (t : Tree) (place : Location) : Option Node :=
  if place = [] then some .directory else t.nodes.lookup place

/-- The tree with `node` at a location. -/
def put (t : Tree) (place : Location) (node : Node) : Tree :=
  ⟨(place, node) :: t.nodes.filter (·.1 ≠ place)⟩

/-- Follows components from a location on. All but the last one have to lead to directories. -/
def follow (t : Tree) (place : Location) : List String → Except Fault Location
  | [] => .ok place
  | c :: rest =>
    match t.node? place with
    | none => .error .missing
    | some (.file _) => .error .notDirectory
    | some .directory =>
      if longestName < c.utf8ByteSize then .error .nameTooLong
      else follow t (if c = ".." then place.dropLast else place ++ [c]) rest

/-- The location that a path leads to from a directory, whether something is there or not. -/
def locateFrom (t : Tree) (directory p : Path) : Except Fault Location :=
  if longestPath < p.text.utf8ByteSize then .error .nameTooLong
  else t.follow [] (directory.join p).components

/-- The location that an absolute path leads to, whether something is there or not. -/
def locate (t : Tree) (p : Path) : Except Fault Location :=
  t.locateFrom Path.top p

/-- What an absolute path leads to. -/
def look (t : Tree) (p : Path) : Except Fault Node := do
  match t.node? (← t.locate p) with
  | some node => return node
  | none => throw .missing

/-- Whether an absolute path leads to something. -/
def has (t : Tree) (p : Path) : Bool :=
  (t.look p).toOption.isSome

/-- Whether an absolute path leads to a directory. -/
def hasDirectory (t : Tree) (p : Path) : Bool :=
  match t.look p with
  | .ok .directory => true
  | _ => false

/-- The content of a file that a path leads to from a directory. -/
def readFrom (t : Tree) (directory p : Path) : Except Fault ByteArray := do
  match t.node? (← t.locateFrom directory p) with
  | some (.file content) => return content
  | some .directory => throw .isDirectory
  | none => throw .missing

/-- The content of the file that an absolute path leads to. -/
def read (t : Tree) (p : Path) : Except Fault ByteArray :=
  t.readFrom Path.top p

/-! ## Changes -/

/-- Makes the directories that are missing among those that components lead to from a location on. `made` tells
whether one was made already. A file that stands in the way is then taken for a directory to be made. -/
def makeFrom (t : Tree) (place : Location) (made : Bool) : List String → Tree × Option Fault
  | [] => (t, none)
  | c :: rest =>
    if longestName < c.utf8ByteSize then (t, some .nameTooLong)
    else
      let next := if c = ".." then place.dropLast else place ++ [c]
      match t.node? next with
      | some .directory => makeFrom t next made rest
      | some (.file _) => (t, some (if made || rest.isEmpty then .present else .notDirectory))
      | none => makeFrom (t.put next .directory) next true rest

/-- Makes the directory of an absolute path and the directories on the way that are missing. What has been made
stays when a later one fails. -/
def makeDirectories (t : Tree) (p : Path) : Tree × Option Fault :=
  if longestPath < p.text.utf8ByteSize then (t, some .nameTooLong) else t.makeFrom [] false p.components

/-- Makes a file where there is nothing. -/
def createFile (t : Tree) (p : Path) (content : ByteArray) : Except Fault Tree := do
  let place ← t.locate p
  match t.node? place with
  | some _ => throw .present
  | none => return t.put place (.file content)

/-- The tree without what is at a location. -/
def erase (t : Tree) (place : Location) : Tree :=
  ⟨t.nodes.filter (·.1 ≠ place)⟩

/-- Takes a file away. -/
def removeFile (t : Tree) (p : Path) : Except Fault Tree := do
  let place ← t.locate p
  match t.node? place with
  | some (.file _) => return t.erase place
  | some .directory => throw .isDirectory
  | none => throw .missing

/-- Moves a file to a path, in place of the file that is there. The last component of the path has to be a
name. -/
def moveFile (t : Tree) (source target : Path) : Except Fault Tree := do
  if target.name = "" ∨ target.name = ".." then throw .busy
  let old ← t.locate source
  let new ← t.locate target
  match t.node? old, t.node? new with
  | some (.file _), some .directory => throw .isDirectory
  | some (.file content), _ => return (t.erase old).put new (.file content)
  | some .directory, _ => throw .isDirectory
  | none, _ => throw .missing

/-! ## Views -/

/-- The locations below a location, each relative to it, with what is there. -/
def below (t : Tree) (place : Location) : List (Location × Node) :=
  t.nodes.filterMap fun (other, node) =>
    if place.isPrefixOf other && other != place then some (other.drop place.length, node) else none

/-- Whether a directory holds nothing. -/
def isEmptyDirectory (t : Tree) (place : Location) : Bool :=
  match t.node? place with
  | some .directory => (t.below place).isEmpty
  | _ => false

@[simp] theorem node?_put_self (t : Tree) {place : Location} (node : Node) (h : place ≠ []) :
    (t.put place node).node? place = some node := by
  simp [node?, put, h]

theorem node?_erase_of_ne (t : Tree) {p q : Location} (h : q ≠ p) : (t.erase p).node? q = t.node? q := by
  unfold node? erase
  split
  · rfl
  · exact Table.lookup_filter_ne t.nodes h

/-- A change at one location leaves the others alone. -/
theorem node?_put_of_ne (t : Tree) {p q : Location} (node : Node) (h : q ≠ p) :
    (t.put p node).node? q = t.node? q := by
  unfold node? put
  split
  · rfl
  · have hq : (q == p) = false := by simpa using h
    simp only [List.lookup_cons, hq]
    exact Table.lookup_filter_ne t.nodes h

end Tree

end SchemaAccessors.Files
