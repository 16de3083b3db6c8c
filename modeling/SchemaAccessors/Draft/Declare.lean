import SchemaAccessors.Draft.State
import SchemaAccessors.Json.Printer
import SchemaAccessors.Naming

/-!
# Declaring types

A node gets a type if its values have parts to give access to: an object with properties, an array, or a value
of no single kind. The type is declared inside the type of the node that it is written in. Its name is the
first free one, beginning with the name for its URI.
-/

namespace SchemaAccessors

/-! ## Free names

A name is free for a type if neither the language nor a type around it has it, and if no simple name means
both a type directly in the namespace and a type inside another. Siblings are told apart by the model. -/

/-- The first name that is not taken among a name and its variations, `attempts` of them at most. -/
def firstFree? (taken : String → Bool) :
    (attempts : Nat) → (name : String) → Except Number.Overlong (Option String)
  | 0, _ => .ok none
  | attempts + 1, name => do
    if taken name then firstFree? taken attempts (← Naming.next name) else return some name

/-- Whether a type in a container should not have a name. -/
def Model.isUnavailable (m : Model) (c : Container) (name : String) : Bool :=
  let outer := m.around c
  m.reservedTypes.contains name
    || m.types.any (fun t => t.isTopLevel == !outer.isEmpty && t.name = name)
    || outer.any (fun id => m.nameOf id = name)

namespace Drafting

/-- The documentation of the type for a node. -/
def documentation (s : Setting) (n : SchemaNode) : String :=
  let about := [s!"Created from {n.uri}",
    s!"Explicit types {Text.quotedList (n.kinds.map Kind.name)}",
    s!"Inferred types {Text.quotedList ((Members.inferredKinds n.members).map Kind.name)}"]
  let schema := if s.config.includeSchemaJsonInDocs.truthy then [(Json.obj n.members).indented] else []
  String.intercalate "\n" (about ++ schema)

/-- The next name to try where a name is taken. -/
def nextName (name : String) : DraftM String :=
  lift ((Naming.next name).mapError .overlong)

/-- Declares a type for a node, with the documentation `doc`, under the first free name, for `left` siblings of
a taken name at most. -/
def declareType (n : SchemaNode) (doc : String) (c : Container) (attempts : Nat) :
    (left : Nat) → (name : String) → DraftM TypeId
  | 0, _ => throw (.noTypeName n.uri)
  | left + 1, name => do
    let m := (← get).model
    match ← lift ((firstFree? (m.isUnavailable c) attempts name).mapError .overlong) with
    | none => throw (.noUnenclosedName n.uri)
    | some name =>
      match m.declare c name doc with
      | .ok (model, id) =>
        modify fun d => { d with model }
        return id
      | .error _ =>
        note (.siblingTaken name)
        declareType n doc c attempts left (← nextName name)

/-- Whether a node gets a type. -/
def needsType (s : Setting) (n : SchemaNode) : RawKind → DraftM Bool
  | .object => do return !(← onStore (Store.properties s.loader n)).isEmpty
  | .any | .array => return true
  | _ => return false

/-- The draft of a node, made if there is none. A new one is registered before anything else, so that it is
found while its type is declared; `container` says where, and is asked only for a node that gets a type. -/
def declareIn (s : Setting) (n : SchemaNode) (container : DraftM Container) : DraftM DraftId := do
  if let some id ← lookup n.uri then return id
  let id ← create n
  let raw := RawKind.ofKinds n.kinds
  if ← needsType s n raw then
    let c ← container
    let attempts ← lift s.attempts
    let type ← declareType n (documentation s n) c attempts attempts (Naming.typeName n.uri)
    update id fun d => { d with wrapper? := some type }
    note (.declared ((← get).model.qualifiedName type) n.uri)
  else
    note (.untyped n.uri raw)
  return id

/-- The draft of a node, made if there is none. The type of a node that is written in another is declared
inside the other's type, if that has one. -/
def declare (s : Setting) : SchemaNode → DraftM DraftId
  | .root site => declareIn s (.root site) (pure (.top s.namespaceIndex))
  | .inside parent site => declareIn s (.inside parent site) do
    let outer ← draft (← declare s parent)
    return match outer.wrapper? with
      | some type => .inside type
      | none => .top s.namespaceIndex

end Drafting

end SchemaAccessors
