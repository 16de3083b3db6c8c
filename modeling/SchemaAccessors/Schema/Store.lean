import SchemaAccessors.Schema.Decoded
import SchemaAccessors.Schema.Loader

/-!
# The store of schemas

A store is what its surveys found, in the order of loading. Two ways lead to a place: a URI finds the first
node with that name, and an address the last place that has it. References are followed when they are needed,
and documents are loaded on the way. A failure undoes nothing.
-/

namespace SchemaAccessors

/-- A document that has been surveyed. -/
structure Load where
  uri : String
  survey : Survey

structure Store where
  loads : List Load

/-- Steps on a store. A step that fails keeps the changes made before. -/
abbrev StoreM := ExceptT Failure (StateM Store)

namespace Store

def empty : Store := ⟨[]⟩

/-- All places, in the order in which they were found. -/
def places (s : Store) : List Place :=
  s.loads.flatMap (·.survey.places)

/-- The first node that has a name. -/
def named? (s : Store) (uri : String) : Option SchemaNode :=
  s.places.findSome? fun p => p.entry.node?.filter (·.names.contains uri)

/-- What the last place with an address holds. -/
def at? (s : Store) (address : Address) : Option Entry :=
  (s.places.findRev? (·.addresses.contains address)).map (·.entry)

/-- Whether a document was loaded under a URI, with success or without. -/
def hasLoaded (s : Store) (uri : String) : Bool :=
  s.loads.any (·.uri = uri)

/-- A bound on how many nodes the store has. -/
def weight (s : Store) : Nat :=
  s.places.length

/-! ## Loading and resolving -/

/-- The URI without its fragment, and the fragment. -/
def split (uri : String) : StoreM (String × String) :=
  ExceptT.mk (pure ((Uri.defragment uri).mapError .badUri))

/-- Loads a document under a URI, with what is surveyed in it, and gives its root. Under a URI that was used
before, the root is the first document's. -/
def loadWith (surveyed : String → Survey) (document : Json) (uri : String) : StoreM Entry := do
  let (uri, _) ← split uri
  let s ← get
  if s.hasLoaded uri then
    match s.at? (uri, []) with
    | some entry => return entry
    | none => throw .lostRoot
  match document with
  | .obj _ =>
    let found := surveyed uri
    set (⟨s.loads ++ [⟨uri, found⟩]⟩ : Store)
    match found.halt?, found.places with
    | some halt, _ => throw halt.cause
    | none, root :: _ => return root.entry
    | none, [] => throw .lostRoot
  | value => throw (.notAnObject uri value)

/-- Loads a document. -/
def load (document : Json) (uri : String) : StoreM Entry :=
  loadWith (fun uri => survey (.root uri) document) document uri

/-- Loads a document that was read. -/
def loadDecoded (document : Decoded) (uri : String) : StoreM Entry :=
  loadWith (fun uri => document.survey (.root uri)) document.json uri

/-- Loads the document in a file under the URI of the file. -/
def loadFile (loader : Loader) (path : Files.Path) : StoreM Entry := do
  let path ← ExceptT.mk (pure path.passable)
  let uri := Loader.fileUri (Files.Path.resolve loader.directory path)
  let document ← ExceptT.mk (pure (loader.readFile uri))
  loadDecoded document uri

/-- Loads the document of a URI, unless its root has an address. -/
def ensureLoaded (loader : Loader) (uri : String) : StoreM Unit := do
  if ((← get).at? (uri, [])).isNone then
    let document ← ExceptT.mk (pure (loader.fetch uri))
    let _ ← load document uri

/-- What a URI leads to: the node of that name, or else the place that its fragment points to. -/
def resolve (loader : Loader) (uri : String) : StoreM Entry := do
  if let some n := (← get).named? uri then return .node n
  let (document, fragment) ← split uri
  ensureLoaded loader document
  let s ← get
  let found : Option Entry :=
    if fragment = "" ∨ fragment.startsWith "/" then s.at? (document, Uri.pointer fragment)
    else (s.named? uri).map .node
  match found with
  | some entry => return entry
  | none => throw (.unresolved uri)

/-- Follows references from an entry on, for `fuel` of them at most; `seen` are the URIs of the references
followed so far. -/
def follow (loader : Loader) : (fuel : Nat) → (seen : List String) → Entry → StoreM Entry
  | _, _, .plain value => return .plain value
  | fuel, seen, .node n =>
    match n.ref? with
    | none => return .node n
    | some ref =>
      match fuel with
      | 0 => throw .exhausted
      | fuel + 1 => do
        if seen.contains n.uri then throw (.endless n.uri)
        let target ← ExceptT.mk (pure ((Uri.join n.base ref).mapError .badUri))
        let entry ← resolve loader target
        follow loader fuel (n.uri :: seen) entry

/-- A bound on how many nodes the store can come to have. -/
def capacity (s : Store) (loader : Loader) : Nat :=
  s.weight + loader.capacity + 1

/-- What an entry stands for: itself, or the end of the references that begin with it. -/
def deref (loader : Loader) (entry : Entry) : StoreM Entry := do
  follow loader ((← get).capacity loader) [] entry

/-! ## Children of a node -/

/-- What a subschema of a node holds. One that was under survey when the survey halted holds nothing yet. -/
def child? (s : Store) (n : SchemaNode) (keys : List String) : Option Entry := do
  let load ← s.loads.find? (·.uri = n.site.document)
  let path := n.site.path ++ keys
  if load.survey.halt?.any (path.isPrefixOf ·.path) then none
  else (load.survey.places.find? (·.path = path)).map (·.entry)

/-- The names and entries of the properties of a node, in the order of the document. -/
def propertyEntries (s : Store) (n : SchemaNode) : List (String × Entry) :=
  match n.members.get? "properties" with
  | some (.obj properties) => properties.filterMap fun (name, _) =>
    (s.child? n ["properties", name]).map fun entry => (name, entry)
  | _ => []

/-- The entries of the items of a node. -/
def itemEntries (s : Store) (n : SchemaNode) : List Entry :=
  n.members.itemSchemas.filterMap fun c => s.child? n c.keys

/-- The properties of a node, each with what it stands for. -/
def properties (loader : Loader) (n : SchemaNode) : StoreM (List (String × Entry)) := do
  ((← get).propertyEntries n).mapM fun (name, entry) => do return (name, ← deref loader entry)

/-- What the items of a node stand for. -/
def items (loader : Loader) (n : SchemaNode) : StoreM (List Entry) := do
  ((← get).itemEntries n).mapM (deref loader)

end Store

end SchemaAccessors
