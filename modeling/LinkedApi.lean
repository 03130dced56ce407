import LinkedApi.Generation.Shown
import LinkedApi.Main
import LinkedApi.Sink.Memory
import LinkedApi.Transport.Memory
import LinkedApi.Proofs.Generation.Pieces
import LinkedApi.Proofs.Steps
import LinkedApi.Proofs.Generation.Writing
import LinkedApi.Proofs.Generation.Lines
import LinkedApi.Proofs.Emission.Steps
import LinkedApi.Proofs.Emission.Integrity
import LinkedApi.Proofs.Outcomes
import LinkedApi.Proofs.Validation
import LinkedApi.Proofs.Emission.Layout
import LinkedApi.Proofs.Emission.Run
import LinkedApi.Proofs.Emission.Interruption
import LinkedApi.Proofs.Compilation.Completeness
import LinkedApi.Proofs.Compilation.ClosedForm
import LinkedApi.Proofs.Location
import LinkedApi.Proofs.Resolution.Nesting
import LinkedApi.Proofs.Resolution.Exactness
import LinkedApi.Proofs.Registry
import LinkedApi.Proofs.Transport.Course
import LinkedApi.Proofs.Loading.Barrier
import LinkedApi.Proofs.Emission.Journal
import LinkedApi.Proofs.Emission.Composition
import LinkedApi.Proofs.Emission.LifeCycle
import LinkedApi.Proofs.Resolution.Termination
import LinkedApi.Proofs.Resolution.ReferenceFree
import LinkedApi.Proofs.Resolution.Reloading
import LinkedApi.Proofs.Resolution.FirstFailure
import LinkedApi.Proofs.Resolution.Splitting
import LinkedApi.Proofs.Resolution.Pointer
import LinkedApi.Proofs.Generation.Bindings
import LinkedApi.Proofs.Compilation.Names
import LinkedApi.Proofs.Emission.Routes
import LinkedApi.Proofs.Compilation.Routes
import LinkedApi.Proofs.Generation.Handlers
import LinkedApi.Proofs.Route
import LinkedApi.Proofs.Compilation.Counts
import LinkedApi.Proofs.FileSystem
import LinkedApi.Proofs.Sink.Calls
import LinkedApi.Proofs.Compilation.Sinks
import LinkedApi.Proofs.Path
import LinkedApi.Proofs.Text.Literal
import LinkedApi.Proofs.Generation.Literals
import LinkedApi.Proofs.Compilation.Literals
import LinkedApi.Proofs.Validation.Faults
import LinkedApi.Proofs.Emission.Refusals
import LinkedApi.Proofs.Resolution.Address
import LinkedApi.Proofs.Location.Origin
import LinkedApi.Proofs.Location.Texts
import LinkedApi.Proofs.Query
import LinkedApi.Proofs.Emission.Transparency
import LinkedApi.Proofs.Route.Parameters
import LinkedApi.Proofs.PipeModule
import LinkedApi.Proofs.Template.Substitution
import LinkedApi.Proofs.Template.Arity
import LinkedApi.Proofs.Text.SingleLine
import LinkedApi.Proofs.Template.Terminators
import LinkedApi.Proofs.Context
import LinkedApi.Proofs.Registry.History
import LinkedApi.Proofs.Generation.Buffer
import LinkedApi.Proofs.Extraction
import LinkedApi.Proofs.Resolution.Acceptance
