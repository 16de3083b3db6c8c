import SchemaAccessors.Main
import SchemaAccessors.Proofs.Outcome
import SchemaAccessors.Proofs.Defragment
import SchemaAccessors.Proofs.Octets
import SchemaAccessors.Proofs.Pointers
import SchemaAccessors.Proofs.Survey
import SchemaAccessors.Proofs.Reading
import SchemaAccessors.Proofs.Documents
import SchemaAccessors.Proofs.Keys
import SchemaAccessors.Proofs.Locations
import SchemaAccessors.Proofs.Settled
import SchemaAccessors.Proofs.Resolution
import SchemaAccessors.Proofs.Bounds
import SchemaAccessors.Proofs.Spelling
import SchemaAccessors.Proofs.DraftSteps
import SchemaAccessors.Proofs.FillSteps
import SchemaAccessors.Proofs.Registry
import SchemaAccessors.Proofs.TypeNames
import SchemaAccessors.Proofs.Scoping
import SchemaAccessors.Proofs.Mentions
import SchemaAccessors.Proofs.Ledger
import SchemaAccessors.Proofs.Declaring
import SchemaAccessors.Proofs.Members
import SchemaAccessors.Proofs.Filling
import SchemaAccessors.Proofs.Coverage
import SchemaAccessors.Proofs.Accessors
import SchemaAccessors.Proofs.Containment
import SchemaAccessors.Proofs.References
import SchemaAccessors.Proofs.Ending
import SchemaAccessors.Proofs.Termination
import SchemaAccessors.Proofs.Once
import SchemaAccessors.Proofs.Addresses
import SchemaAccessors.Proofs.Stability
import SchemaAccessors.Proofs.Transparency
import SchemaAccessors.Proofs.Printing
import SchemaAccessors.Proofs.Wording
import SchemaAccessors.Proofs.Copying
import SchemaAccessors.Proofs.Braces
import SchemaAccessors.Proofs.JavaCode
import SchemaAccessors.Proofs.Indentation
import SchemaAccessors.Proofs.Docstrings
import SchemaAccessors.Proofs.PythonCode
import SchemaAccessors.Proofs.Validity
import SchemaAccessors.Proofs.Fragments
import SchemaAccessors.Proofs.OnDemand
import SchemaAccessors.Proofs.SameDocument
import SchemaAccessors.Proofs.Literals
import SchemaAccessors.Proofs.Agreement
import SchemaAccessors.Proofs.Targets
import SchemaAccessors.Proofs.Strictness
import SchemaAccessors.Proofs.Skipping
import SchemaAccessors.Proofs.Places
import SchemaAccessors.Proofs.Writing
import SchemaAccessors.Proofs.Refusals
import SchemaAccessors.Proofs.Failing
import SchemaAccessors.Proofs.Rendering
import SchemaAccessors.Proofs.Escapes
import SchemaAccessors.Proofs.Identifiers
import SchemaAccessors.Proofs.Remains
import SchemaAccessors.Proofs.Repeating
import SchemaAccessors.Proofs.Nesting
import SchemaAccessors.Proofs.Outlines
import SchemaAccessors.Proofs.PythonOutline
import SchemaAccessors.Proofs.JavaOutline
import SchemaAccessors.Proofs.Shape
import SchemaAccessors.Proofs.FreeNames
import SchemaAccessors.Proofs.Clashes
import SchemaAccessors.Proofs.JavaStrings
import SchemaAccessors.Proofs.DecimalText
import SchemaAccessors.Proofs.JavaDefaults
import SchemaAccessors.Proofs.JavaFiles
import SchemaAccessors.Proofs.JavaArguments
import SchemaAccessors.Proofs.JavaClassNames
import SchemaAccessors.Proofs.Chains
import SchemaAccessors.Proofs.TypeChecks
import SchemaAccessors.Proofs.JavaLiterals
import SchemaAccessors.Proofs.LongStrings
import SchemaAccessors.Proofs.Options
import SchemaAccessors.Proofs.Destinations
import SchemaAccessors.Proofs.Existing
import SchemaAccessors.Proofs.CommentText
import SchemaAccessors.Proofs.JavaComments
import SchemaAccessors.Proofs.KeyNames
import SchemaAccessors.Proofs.Listing
