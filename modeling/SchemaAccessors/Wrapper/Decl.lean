import SchemaAccessors.Wrapper.Raw

/-!
# Declarations of wrapper types

A wrapper type holds one decoded JSON value and gives access to it by methods. What a method returns is an
expression of a few forms, which each target language writes in its own way.
-/

namespace SchemaAccessors

/-- A wrapper type, by its place in the order of declaration. -/
abbrev TypeId := Nat

inductive Visibility
  | visible
  | hidden
deriving DecidableEq, Repr

def Visibility.word : Visibility → String
  | visible => "public"
  | hidden => "private"

/-- The type of a value: a raw kind, and the wrapper type around it if there is one. -/
structure TypeRef where
  raw : RawKind
  wrapper? : Option TypeId := none
deriving DecidableEq, Repr

/-- Whether values are plain booleans. -/
def TypeRef.isBoolean (r : TypeRef) : Bool :=
  r.wrapper?.isNone && r.raw == .boolean

structure Field where
  name : String
  type : TypeRef
  visibility : Visibility := .hidden
  isFinal : Bool := true
deriving DecidableEq, Repr

structure Parameter where
  name : String
  type : TypeRef
deriving DecidableEq, Repr

/-- What a method returns. A lookup with a default gives that where nothing is found, and one without fails. -/
inductive Expr
  /-- The value of a field. -/
  | field (source : Field)
  | literal (value : Json)
  /-- The value of a key of a raw object. -/
  | property (source : Field) (key : String) (kind : RawKind) (default? : Option Json)
  /-- The element of a raw array at an index. -/
  | item (source : Field) (index : Parameter) (kind : RawKind) (default? : Option Json)
  /-- Whether a raw object has a key. -/
  | presence (source : Field) (key : String)
  /-- The length of a raw array. -/
  | length (source : Field)
  /-- A wrapper around a value. -/
  | construct (type : TypeId) (argument : Expr)
  /-- A value that is no expression. It cannot be written in any language. -/
  | foreign (value : Json)

/-- A constructor: its parameters, and which field is given which parameter. -/
structure Constructor where
  parameters : List Parameter
  assignments : List (String × String)
  visibility : Visibility := .visible
deriving DecidableEq, Repr

structure Method where
  name : String
  returns : TypeRef
  parameters : List Parameter := []
  body? : Option Expr
  visibility : Visibility := .visible

/-- Where a type is declared: in a namespace, or inside another type. -/
inductive Container
  | top (namespaceIndex : Nat)
  | inside (outer : TypeId)
deriving DecidableEq, Repr

structure WrapperType where
  name : String
  container : Container
  doc : String
  fields : List Field := []
  constructors : List Constructor := []
  methods : List Method := []

namespace WrapperType

def isTopLevel (t : WrapperType) : Bool :=
  match t.container with
  | .top _ => true
  | .inside _ => false

/-- The method of a name. -/
def method? (t : WrapperType) (name : String) : Option Method :=
  t.methods.find? (·.name = name)

/-- Whether a method or field has a name. -/
def declares (t : WrapperType) (name : String) : Bool :=
  t.methods.any (·.name = name) || t.fields.any (·.name = name)

end WrapperType

end SchemaAccessors
