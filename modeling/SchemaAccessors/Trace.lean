import SchemaAccessors.Wrapper.Raw

/-!
# Traces

What a run does is recorded event by event. An event is a warning or a detail; each is logged under the name
of the part of the program that it belongs to.
-/

namespace SchemaAccessors

inductive Event
  | loading (uri : String)
  | declared (qualifiedName uri : String)
  | untyped (uri : String) (raw : RawKind)
  | siblingTaken (name : String)
  | memberTaken (name typeName : String)
  | completing (uri : String)
  | skipped (entry : MalformedEntry)
  | generated (types : Nat) (uri : String)
  | unformatted
  | wrote (path : String)

namespace Event

/-- Whether the event is shown without being asked for. -/
def isWarning : Event → Bool
  | skipped _ | unformatted => true
  | _ => false

def source : Event → String
  | loading _ => "json_schema_types.pipeline.schema_model.store"
  | declared .. | untyped .. | siblingTaken _ | memberTaken .. | skipped _ =>
    "json_schema_types.pipeline.analyzer.builder"
  | completing _ => "json_schema_types.pipeline.analyzer.orchestrator"
  | generated .. => "json_schema_types.pipeline.generator"
  | unformatted => "json_schema_types.pipeline.formatters.black_formatter"
  | wrote _ => "json_schema_types.pipeline.writer.atomic_writer"

def message : Event → String
  | loading uri => s!"Loading schema document {uri}"
  | declared qualifiedName uri => s!"Declared {qualifiedName} for {uri}"
  | untyped uri raw => s!"No type for {uri}, using raw {raw.name}"
  | siblingTaken name => s!"Sibling type {name} already exists, varying name"
  | memberTaken name typeName => s!"Member {name} already exists on {typeName}, varying name"
  | completing uri => s!"Populating {uri}, declared only as a container"
  | skipped entry => entry.message
  | generated types uri => s!"Generated {types} types from {uri}"
  | unformatted => "Formatting requested but black is not installed; output left unformatted"
  | wrote path => s!"Wrote {path}"

def level (e : Event) : String :=
  if e.isWarning then "WARNING" else "DEBUG"

/-- The line of a log for an event. -/
def line (e : Event) : String :=
  s!"{e.level} {e.source}: {e.message}"

end Event

/-- The events of a run, in order. -/
abbrev Trace := Array Event

namespace Trace

/-- The messages of the warnings. -/
def warnings (t : Trace) : List String :=
  (t.toList.filter Event.isWarning).map Event.message

/-- The lines that a log shows, with details or without. -/
def log (t : Trace) (detailed : Bool) : String :=
  String.join ((t.toList.filter fun e => detailed || e.isWarning).map (·.line ++ "\n"))

theorem warnings_push (t : Trace) (e : Event) :
    Trace.warnings (t.push e) = t.warnings ++ if e.isWarning then [e.message] else [] := by
  by_cases h : e.isWarning <;> simp [warnings, h]

end Trace

end SchemaAccessors
