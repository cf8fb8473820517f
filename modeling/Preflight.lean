import Preflight.AttributeAccess
import Preflight.CommandLine
import Preflight.Directory.Tree
import Preflight.Main
import Preflight.Proofs.Lookup
import Preflight.Proofs.Entry
import Preflight.Proofs.Noninterference
import Preflight.Proofs.Refinement
import Preflight.Proofs.Settling
import Preflight.Proofs.Stopping
import Preflight.Proofs.DeclarationOrder
import Preflight.Proofs.WriteBack
import Preflight.Proofs.Resolution
import Preflight.Proofs.Learning
import Preflight.Proofs.Reading
import Preflight.Proofs.PathReference
import Preflight.Proofs.Writes
import Preflight.Proofs.ParameterEntry
import Preflight.Proofs.SuppliedValue
import Preflight.Proofs.ReportedValue
import Preflight.Proofs.Inlining
import Preflight.Proofs.Rerun
import Preflight.Proofs.TagStates
import Preflight.Proofs.Accounting
import Preflight.Proofs.ComputedAttributes
import Preflight.Proofs.ParameterOrder
import Preflight.Proofs.Conformance
import Preflight.Proofs.Defaults
import Preflight.Proofs.Isolation
import Preflight.Proofs.SettledValues
import Preflight.Proofs.Completion
import Preflight.Proofs.WrittenIntegers
import Preflight.Proofs.NumberText
import Preflight.Proofs.Occurrences
import Preflight.Proofs.ReferenceScan
import Preflight.Proofs.JsonReading
import Preflight.Proofs.JsonText
import Preflight.Proofs.Likeness
import Preflight.Proofs.EncodedList
import Preflight.Proofs.TagMerging
import Preflight.Proofs.LatestTag
import Preflight.Proofs.Shadowing
import Preflight.Proofs.Expansion
import Preflight.Proofs.ParameterDefault
import Preflight.Proofs.AttributeReports
import Preflight.Proofs.ListingOrder
import Preflight.Proofs.VariableValue
import Preflight.Proofs.BuilderCalls
import Preflight.Proofs.SuppliedParameters
import Preflight.Proofs.ValueEquality
import Preflight.Proofs.ScopeStore
import Preflight.Proofs.TypeText
import Preflight.Proofs.StringForm
import Preflight.Proofs.RoundTrip
