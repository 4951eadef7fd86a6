import Stencil.Engine
import Stencil.Key.Json
import Stencil.Proofs.Document.Plain
import Stencil.Proofs.Gas
import Stencil.Proofs.Marker.RoundTrip
import Stencil.Report.Json
import Stencil.Value.Stored
import Stencil.Proofs.Document.Assembly
import Stencil.Proofs.Report
import Stencil.Proofs.Document.Reporting
import Stencil.Proofs.Document.Limits
import Stencil.Proofs.Resolver
import Stencil.Proofs.Document.Conditions
import Stencil.Proofs.Evaluation.Assembly
import Stencil.Proofs.Filter
import Stencil.Proofs.Evaluation.Calls
import Stencil.Proofs.Evaluation.Bindings
import Stencil.Proofs.Document.Depth
import Stencil.Proofs.Document.WellFormed
import Stencil.Proofs.Marker.Columns
import Stencil.Proofs.Document.Places
import Stencil.Proofs.Marker.Concatenation
import Stencil.Proofs.Document.Siblings
import Stencil.Proofs.Filter.Integers
import Stencil.Proofs.Text.Glob
import Stencil.Proofs.Resolver.Reference
import Stencil.Proofs.Evaluation.InOrder
import Stencil.Proofs.Dictionary
import Stencil.Proofs.Evaluation.UniqueNames
import Stencil.Proofs.Evaluation.Merging
import Stencil.Proofs.Evaluation.Repetition
import Stencil.Proofs.Marker.Keys
import Stencil.Proofs.Marker.Bracketing
import Stencil.Proofs.Document.Rearranging
import Stencil.Proofs.Document.Literals
import Stencil.Proofs.Report.Collection
import Stencil.Proofs.Filter.Registry
import Stencil.Proofs.Value.Stored
import Stencil.Proofs.Value.Equality
import Stencil.Proofs.Resolver.Dotted
import Stencil.Proofs.Report.Stored
import Stencil.Proofs.Document.Pointers
import Stencil.Proofs.Number.Numerals
