import SchemaAccessors.Wrapper.Decl

/-!
# The type model

A model records namespaces and wrapper types in the order of declaration. Sibling types have different names,
and so have the members of a type; a declaration that would break this is refused and changes nothing.
-/

namespace SchemaAccessors

structure Model where
  /-- Names that no type should have. Whoever names types looks at them; the model does not. -/
  reservedTypes : List String
  /-- Names that no member can have. -/
  reservedMembers : List String
  namespaces : List String
  types : List WrapperType

namespace Model

def empty (reservedTypes reservedMembers : List String) : Model :=
  ⟨reservedTypes, reservedMembers, [], []⟩

/-! ## Types and what they are declared in -/

/-- The types declared directly in a container, in the order of declaration. -/
def children (m : Model) (c : Container) : List (TypeId × WrapperType) :=
  (m.types.zipIdx.filter (·.1.container = c)).map fun (t, id) => (id, t)

/-- The type of a name in a container. -/
def find? (m : Model) (c : Container) (name : String) : Option TypeId :=
  ((m.children c).find? (·.2.name = name)).map (·.1)

/-- The type that a type is directly inside of. -/
def outer? (m : Model) (id : TypeId) : Option TypeId :=
  match (m.types[id]?).map WrapperType.container with
  | some (.inside outer) => some outer
  | _ => none

/-- The types around a type, innermost first. A type is declared after the type that it is inside of. -/
def enclosing (m : Model) (id : TypeId) : List TypeId :=
  match m.outer? id with
  | some outer => if outer < id then outer :: m.enclosing outer else []
  | none => []
termination_by id

/-- The types around what is declared in a container, innermost first. -/
def around (m : Model) : Container → List TypeId
  | .top _ => []
  | .inside outer => outer :: m.enclosing outer

def nameOf (m : Model) (id : TypeId) : String :=
  (m.types[id]?.map (·.name)).getD ""

/-- The name of a type behind the names of the types around it, with dots between. -/
def qualifiedName (m : Model) (id : TypeId) : String :=
  String.intercalate "." (((m.enclosing id).reverse ++ [id]).map m.nameOf)

/-- The namespace that a type is in, directly or not. -/
def namespaceOf? (m : Model) (id : TypeId) : Option String :=
  (m.types[((m.enclosing id).getLast?).getD id]?).bind fun t =>
    match t.container with
    | .top i => m.namespaces[i]?
    | .inside _ => none

/-! ## Declaring -/

/-- The namespace of a name, declared when it is asked for first. -/
def withNamespace (m : Model) (name : String) : Model × Nat :=
  match m.namespaces.findIdx? (· = name) with
  | some i => (m, i)
  | none => ({ m with namespaces := m.namespaces ++ [name] }, m.namespaces.length)

/-- Declares a type without members. -/
def declare (m : Model) (c : Container) (name doc : String) : Except Failure (Model × TypeId) :=
  if (m.find? c name).isSome then .error (.typeExists name)
  else .ok ({ m with types := m.types ++ [{ name, container := c, doc }] }, m.types.length)

/-- Whether a type cannot be given a member of a name. -/
def hasMember (m : Model) (id : TypeId) (name : String) : Bool :=
  m.reservedMembers.contains name || m.types[id]?.any (·.declares name)

def update (m : Model) (id : TypeId) (f : WrapperType → WrapperType) : Model :=
  { m with types := m.types.modify id f }

def addField (m : Model) (id : TypeId) (field : Field) : Except Failure Model :=
  if m.hasMember id field.name then .error (.memberExists (m.nameOf id) field.name)
  else .ok (m.update id fun t => { t with fields := t.fields ++ [field] })

def addConstructor (m : Model) (id : TypeId) (constructor : Constructor) : Model :=
  m.update id fun t => { t with constructors := t.constructors ++ [constructor] }

def addMethod (m : Model) (id : TypeId) (method : Method) : Except Failure Model :=
  if m.hasMember id method.name then .error (.memberExists (m.nameOf id) method.name)
  else .ok (m.update id fun t => { t with methods := t.methods ++ [method] })

/-! ## Orders

All types are listed by depth: first those in namespaces, then those directly inside them, and so on. No type
lies deeper than there are types. -/

/-- The types directly in namespaces. -/
def outermost (m : Model) : List TypeId :=
  (List.range m.namespaces.length).flatMap fun i => (m.children (.top i)).map (·.1)

/-- The types directly inside some types. -/
def inner (m : Model) (level : List TypeId) : List TypeId :=
  level.flatMap fun id => (m.children (.inside id)).map (·.1)

/-- The types of a level and of the levels below it, for as long as they hold types, for `fuel` levels at
most. -/
def levelsFrom (m : Model) : (fuel : Nat) → (level : List TypeId) → List TypeId
  | 0, _ => []
  | fuel + 1, level => if level.isEmpty then [] else level ++ m.levelsFrom fuel (m.inner level)

/-- All types, each behind the type that it is inside of. -/
def allTypes (m : Model) : List TypeId :=
  m.levelsFrom m.types.length m.outermost

end Model

/-! ## Nesting

Rendering follows the nesting of types. A tree holds a type and the types inside it. -/

inductive TypeTree
  | node (id : TypeId) (type : WrapperType) (inner : List TypeTree)

namespace Model

/-- The trees of the types in a container, down to a depth of `fuel`. -/
def treesFrom (m : Model) : (fuel : Nat) → Container → List TypeTree
  | 0, _ => []
  | fuel + 1, c => (m.children c).map fun (id, t) => .node id t (m.treesFrom fuel (.inside id))

/-- The trees of the types in a namespace. -/
def trees (m : Model) (namespaceIndex : Nat) : List TypeTree :=
  m.treesFrom m.types.length (.top namespaceIndex)

end Model

end SchemaAccessors
