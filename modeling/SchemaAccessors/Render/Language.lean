import SchemaAccessors.Render.Java
import SchemaAccessors.Render.Python

/-!
# Target languages

The languages that wrappers can be written in, and what each of them asks of names.
-/

namespace SchemaAccessors

inductive Language
  | python
  | java
deriving DecidableEq, Repr

namespace Language

def all : List Language := [python, java]

def name : Language → String
  | python => "python"
  | java => "java"

/-- The language of a name. -/
def ofName? (name : String) : Option Language :=
  all.find? (·.name = name)

/-- A model for the language, without declarations. -/
def model : Language → Model
  | python => .empty Render.Python.reservedTypes []
  | java => .empty Render.Java.reservedTypes Render.Java.reservedMembers

/-- How a comment of one line begins. -/
def commentMark : Language → String
  | python => "#"
  | java => "//"

/-- How code refers to a type. -/
def typeName (l : Language) (m : Model) (id : TypeId) : String :=
  match l with
  | python => m.qualifiedName id
  | java => Render.Java.typeName m id

def typeText (l : Language) (m : Model) (r : TypeRef) : String :=
  match l with
  | python => Render.Python.typeText m r
  | java => Render.Java.typeText m r

def literal (l : Language) (value : Json) : Except Failure String :=
  match l with
  | python => .ok (Render.Python.literal value)
  | java => Render.Java.literal value

def expr (l : Language) (m : Model) (e : Expr) : Except Failure String :=
  match l with
  | python => Render.Python.expr m e
  | java => Render.Java.expr m e

/-- The sources for a model, each with a comment in front unless that is empty. -/
def sources (l : Language) (m : Model) (comment : String) : Except Failure Render.Sources :=
  match l with
  | python => Render.Python.sources m comment
  | java => Render.Java.sources m comment

end Language

end SchemaAccessors
