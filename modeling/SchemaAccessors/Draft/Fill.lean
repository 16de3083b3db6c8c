import SchemaAccessors.Draft.Declare

/-!
# Filling types with members

A type gets a field and a getter for its raw value, a getter for each property and item of its node, checkers
for properties that may be missing, and a size if its values may be arrays. The drafts of properties and items
are made and filled first, so a getter finds the type that it returns.
-/

namespace SchemaAccessors

/-- The default of a node if it can be written as a literal. -/
def SchemaNode.literal? (n : SchemaNode) : Option Json :=
  match n.default? with
  | some (.bool b) => some (.bool b)
  | some (.int i) => some (.int i)
  | some (.float x) => some (.float x)
  | some (.str s) => some (.str s)
  | _ => none

/-- The field for a raw value. -/
def RawKind.field (raw : RawKind) : Field :=
  { name := Naming.lowerFirst raw.name, type := { raw } }

/-- How the name of a getter for a type begins. -/
def TypeRef.getterStem (r : TypeRef) : String :=
  if r.isBoolean then "is" else "get"

/-- What a getter returns that has looked up a value: the value, or the wrapper around it. -/
def TypeRef.wrap (r : TypeRef) (lookup : Expr) : Expr :=
  match r.wrapper? with
  | some type => .construct type lookup
  | none => lookup

namespace Drafting

def addMethod (type : TypeId) (method : Method) : DraftM Unit :=
  onModel fun m => do return (← m.addMethod type method, ())

/-- The field, the constructor and the getter for the raw value. -/
def writeScaffold (type : TypeId) (raw : RawKind) : DraftM Unit := do
  let field := raw.field
  onModel fun m => do return (← m.addField type field, ())
  let parameter : Parameter := ⟨field.name, field.type⟩
  onModel fun m => .ok (m.addConstructor type ⟨[parameter], [(field.name, parameter.name)], .visible⟩, ())
  addMethod type
    { name := field.type.getterStem ++ raw.name, returns := field.type, body? := some (.field field) }

/-- The first suffix among a suffix and its variations with which every stem makes a free member name, `left`
of them at most. -/
def freeSuffix (type : TypeId) (stems : List String) : (left : Nat) → (suffix : String) → DraftM String
  | 0, suffix => do throw (.noMemberName suffix ((← get).model.nameOf type))
  | left + 1, suffix => do
    let m := (← get).model
    if stems.any fun stem => m.hasMember type (stem ++ suffix) then
      note (.memberTaken (stems.headD "" ++ suffix) (m.nameOf type))
      freeSuffix type stems left (← nextName suffix)
    else return suffix

/-- The getter for a property with the draft `d`. Where the key may be missing and no default stands for it, a
checker of the same suffix tells whether it is there. -/
def writeProperty (s : Setting) (type : TypeId) (raw : RawKind) (key : String) (required : Bool)
    (default? : Option Json) (d : Draft) : DraftM Unit := do
  let stem := d.type.getterStem
  let checked := !required && default?.isNone
  let stems := if checked then [stem, "has"] else [stem]
  let suffix ← freeSuffix type stems (← lift s.attempts) (Naming.identifier key)
  addMethod type
    { name := stem ++ suffix, returns := d.type
      body? := some (d.type.wrap (.property raw.field key d.raw default?)) }
  if checked then
    addMethod type
      { name := "has" ++ suffix, returns := { raw := .boolean }, body? := some (.presence raw.field key) }

/-- The getter, by index, for an item with the draft `d`. -/
def writeItem (s : Setting) (type : TypeId) (raw : RawKind) (default? : Option Json) (d : Draft) :
    DraftM Unit := do
  let stem := d.type.getterStem
  let m := (← get).model
  let suffix := match d.wrapper? with
    | some wrapper => m.nameOf wrapper
    | none => Naming.typeName d.node.uri
  let suffix ← freeSuffix type [stem] (← lift s.attempts) suffix
  let index : Parameter := ⟨"index", { raw := .integer }⟩
  addMethod type
    { name := stem ++ suffix, returns := d.type, parameters := [index]
      body? := some (d.type.wrap (.item raw.field index d.raw default?)) }

/-- Passes over an entry that has no node, or fails where the configuration is strict. -/
def skip (s : Setting) (entry : MalformedEntry) : DraftM Unit :=
  if s.config.strictSchemaShapes.truthy then throw (.malformedEntry entry) else note (.skipped entry)

/-- Fills the type of a draft, if it has one and was not filled before. Types of further nodes are filled on
the way, at most `fuel` of them inside one another. -/
def fill (s : Setting) : (fuel : Nat) → DraftId → DraftM Unit
  | 0, _ => throw .exhausted
  | fuel + 1, id => do
    let d ← draft id
    if d.started then return
    update id fun d => { d with started := true }
    let some type := d.wrapper? | return
    let drafted (n : SchemaNode) : DraftM Draft := do
      let id ← declare s n
      fill s fuel id
      draft id
    writeScaffold type d.raw
    let properties ← onStore (Store.properties s.loader d.node)
    properties.forM fun (key, entry) =>
      match entry with
      | .plain value => skip s ⟨.property key, d.node.uri, value⟩
      | .node n => do
        writeProperty s type d.raw key (d.node.required.contains key) n.literal? (← drafted n)
    let items ← onStore (Store.items s.loader d.node)
    items.zipIdx.forM fun (entry, position) =>
      match entry with
      | .plain value => skip s ⟨.item position, d.node.uri, value⟩
      | .node n => do writeItem s type d.raw n.literal? (← drafted n)
    if d.node.kinds.contains .array then
      addMethod type
        { name := "size", returns := { raw := .integer }, body? := some (.length d.raw.field) }

/-- A bound on how many drafts there can come to be. -/
def bound (s : Setting) : DraftM Nat := do
  return (← get).store.capacity s.loader + 1

/-- The draft of a node, made if there is none, and filled. -/
def complete (s : Setting) (n : SchemaNode) : DraftM DraftId := do
  let id ← declare s n
  fill s (← bound s) id
  return id

/-! ## The rest

Some drafts are made only to be declared in. They are filled last, which may make further drafts. -/

/-- The registered drafts that are not filled yet. -/
def pending : DraftM (List DraftId) := do
  let ids ← (← get).registry.mapM fun (_, id?) =>
    match id? with
    | some id => pure id
    | none => throw .noDraft
  let d ← get
  return ids.filter fun id => (d.drafts[id]?).any (!·.started)

/-- Fills what is pending until nothing is, `rounds` times at most. -/
def finishIn (s : Setting) : (rounds : Nat) → DraftM Unit
  | 0 => throw .exhausted
  | rounds + 1 => do
    let ids ← pending
    if ids.isEmpty then return
    ids.forM fun id => do
      note (.completing (← draft id).node.uri)
      fill s (← bound s) id
    finishIn s rounds

/-- Fills every registered draft. -/
def finish (s : Setting) : DraftM Unit := do
  finishIn s (← bound s)

end Drafting

end SchemaAccessors
