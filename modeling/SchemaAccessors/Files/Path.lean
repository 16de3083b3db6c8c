/-!
# Paths

A path is a root and components. Empty components and single dots are dropped when a path is read; `..` is
kept, because what it leads to depends on the directories it passes.
-/

namespace SchemaAccessors.Files

/-- What a path begins with. Two slashes are a root of their own; three or more are one. -/
inductive Root
  | relative
  | single
  | double
deriving DecidableEq, Repr

def Root.text : Root → String
  | relative => ""
  | single => "/"
  | double => "//"

structure Path where
  root : Root
  components : List String
deriving DecidableEq, Repr

namespace Path

/-- The root directory. -/
def top : Path := ⟨.single, []⟩

def rootOf : List Char → Root
  | '/' :: '/' :: '/' :: _ => .single
  | '/' :: '/' :: _ => .double
  | '/' :: _ => .single
  | _ => .relative

/-- Reads a path. -/
def ofString (text : String) : Path :=
  { root := rootOf text.toList
    components := ((text.toList.splitOn '/').map String.ofList).filter fun c => c ≠ "" && c ≠ "." }

/-- The text of a path; the empty relative path is a dot. -/
def text (p : Path) : String :=
  match p.root, p.components with
  | .relative, [] => "."
  | root, components => root.text ++ String.intercalate "/" components

def isAbsolute (p : Path) : Bool :=
  p.root ≠ .relative

/-- The path `q` from `p` on; an absolute `q` stays as it is. -/
def join (p q : Path) : Path :=
  if q.isAbsolute then q else { p with components := p.components ++ q.components }

/-- The last component, empty for a root. -/
def name (p : Path) : String :=
  p.components.getLast?.getD ""

/-- The path without its last component. -/
def parent (p : Path) : Path :=
  { p with components := p.components.dropLast }

/-- Follows `..` in components after the components `stack`, held backwards. -/
def collapseFrom (stack : List String) : List String → List String
  | [] => stack.reverse
  | c :: rest => if c = ".." then collapseFrom stack.tail rest else collapseFrom (c :: stack) rest

/-- The absolute path without `..` that a path leads to from a directory, where no link is on the way. All roots
lead to the one root directory. -/
def resolve (directory p : Path) : Path :=
  ⟨.single, collapseFrom [] (directory.join p).components⟩

theorem join_of_relative {p q : Path} (h : q.isAbsolute = false) :
    p.join q = { p with components := p.components ++ q.components } := by
  simp [join, h]

end Path

end SchemaAccessors.Files
