import SchemaAccessors.Failure
import SchemaAccessors.Schema.Kind
import SchemaAccessors.Uri.Pointer

/-!
# Schema nodes

Each subschema of a document that is an object has a node. Its URI is the URI of its parent with the keywords
and keys that lead to it, unless an `$id` gives it a URI of its own; and an `$id` that changes the document
part of the URI is the base that references below it are relative to.
-/

namespace SchemaAccessors

/-- Where a node is, and what it says. The document it is in and the keys on the way from the root tell it
from every other node. -/
structure Site where
  document : String
  path : List String
  uri : String
  base : String
  members : Members

/-- A schema node: its site, and the node it is written in unless it is the root of a document. -/
inductive SchemaNode
  | root (site : Site)
  | inside (parent : SchemaNode) (site : Site)

namespace SchemaNode

def site : SchemaNode → Site
  | root site => site
  | inside _ site => site

def parent? : SchemaNode → Option SchemaNode
  | root _ => none
  | inside parent _ => some parent

abbrev uri (n : SchemaNode) : String := n.site.uri

abbrev base (n : SchemaNode) : String := n.site.base

abbrev members (n : SchemaNode) : Members := n.site.members

/-- What the node refers to, if it is a reference. -/
def ref? (n : SchemaNode) : Option String :=
  (n.members.get? "$ref").bind Json.str?

/-- The types that the schema names. -/
def kinds (n : SchemaNode) : List Kind :=
  n.members.declaredKinds

/-- Keys that an object has to have. -/
def required (n : SchemaNode) : List String :=
  match n.members.get? "required" with
  | some (.arr names) => names.filterMap Json.str?
  | _ => []

/-- The value that stands for a missing one. -/
def default? (n : SchemaNode) : Option Json :=
  n.members.get? "default"

/-- The URIs that the node can be found under: its own, and its anchor's. -/
def names (n : SchemaNode) : List String :=
  match n.members.get? "$anchor" with
  | some (.str anchor) => [n.uri, s!"{n.base}#{anchor}"]
  | _ => [n.uri]

end SchemaNode

/-- What a subschema location holds: a node, or a value that is no object. -/
inductive Entry
  | node (n : SchemaNode)
  | plain (value : Json)

def Entry.node? : Entry → Option SchemaNode
  | node n => some n
  | plain _ => none

end SchemaAccessors
