import SchemaAccessors.Config
import SchemaAccessors.Schema.Store
import SchemaAccessors.Trace
import SchemaAccessors.Wrapper.Model

/-!
# Drafts

A draft turns one schema node into at most one wrapper type. A node is drafted in two steps: its type is
declared, and later filled with members. Drafts are registered under the URIs of their nodes, so references
that lead back to a node find its draft, and nodes with one URI share one.
-/

namespace SchemaAccessors

/-- A draft, by its place in the order of creation. -/
abbrev DraftId := Nat

structure Draft where
  node : SchemaNode
  raw : RawKind
  wrapper? : Option TypeId := none
  /-- Whether filling has begun. It begins once at most. -/
  started : Bool := false

/-- The type that users of the node see. -/
def Draft.type (d : Draft) : TypeRef :=
  ⟨d.raw, d.wrapper?⟩

/-- What stays the same while drafts are made. -/
structure Setting where
  loader : Loader
  namespaceIndex : Nat
  config : Config

/-- The state of drafting. -/
structure Drafting where
  store : Store
  model : Model
  drafts : List Draft
  registry : List (String × Option DraftId)
  trace : Trace

/-- Steps of drafting. A step that fails keeps the changes made before. -/
abbrev DraftM := ExceptT Failure (StateM Drafting)

namespace Setting

/-- How many names are tried before a search for a free one gives up. -/
def attempts (s : Setting) : Except Failure Nat :=
  match s.config.maxNameAttempts with
  | .int n => .ok n.toNat
  | .bool b => .ok b.toNat
  | _ => .error .wrongKind

end Setting

namespace Drafting

/-- Drafting over a store, with no draft yet. -/
def start (store : Store) (model : Model) : Drafting :=
  ⟨store, model, [], [], #[]⟩

/-- Records an event. -/
def note (e : Event) : DraftM Unit :=
  modify fun d => { d with trace := d.trace.push e }

/-- Takes steps on the store. Each document that is loaded on the way is recorded. -/
def onStore {α : Type} (steps : StoreM α) : DraftM α :=
  ExceptT.mk do
    let d ← get
    let (result, store) := steps.run.run d.store
    let loaded := (store.loads.drop d.store.loads.length).map fun load => Event.loading load.uri
    set { d with store, trace := d.trace ++ loaded.toArray }
    return result

/-- Changes the model, unless that fails. -/
def onModel {α : Type} (change : Model → Except Failure (Model × α)) : DraftM α := do
  match change (← get).model with
  | .ok (model, result) =>
    modify fun d => { d with model }
    return result
  | .error failure => throw failure

def lift {α : Type} (result : Except Failure α) : DraftM α :=
  ExceptT.mk (pure result)

/-! ## The registry -/

/-- The draft that is registered under a URI. -/
def lookup (uri : String) : DraftM (Option DraftId) := do
  return ((← get).registry.lookup uri).join

/-- Registers under a URI. What is registered is never replaced. -/
def register (uri : String) (id? : Option DraftId) : DraftM Unit := do
  if ((← get).registry.lookup uri).isSome then throw (.alreadyRegistered uri)
  modify fun d => { d with registry := d.registry ++ [(uri, id?)] }

def draft (id : DraftId) : DraftM Draft := do
  match (← get).drafts[id]? with
  | some draft => return draft
  | none => throw .noDraft

def update (id : DraftId) (f : Draft → Draft) : DraftM Unit :=
  modify fun d => { d with drafts := d.drafts.modify id f }

/-- Makes a draft for a node and registers it. -/
def create (node : SchemaNode) : DraftM DraftId := do
  let id := (← get).drafts.length
  register node.uri (some id)
  modify fun d => { d with drafts := d.drafts ++ [{ node, raw := .ofKinds node.kinds }] }
  return id

end Drafting

end SchemaAccessors
