import LinkedApi.Emission
import LinkedApi.Resolution.Gathering
import LinkedApi.Validation

/-!
# Compilation

A specification is resolved and validated before anything is written. Then the artifacts are
created, and everything it declares is emitted.
-/

namespace LinkedApi

namespace Compilation

variable {m : Type → Type} [Monad m]

/-- Validates a specification and reads its data sources. -/
def checkedSources (spec : Specification) : Except CompileError (List DataSource) := do
  let _ ← spec.validate.mapError .extraction
  (Specification.sourcesOf spec.dataSources).mapError .extraction

/-- Compiles a resolved specification. -/
def compileSpecification (sink : Sink m) (transport : Transport m) (spec : Specification) :
    m (Except CompileError Report) := do
  match checkedSources spec with
  | .error cause => return .error cause
  | .ok sources =>
    match ← sink.createAll Artifact.all with
    | .error cause => return .error (.creation cause)
    | .ok () =>
      let (outcome, _) ← Emission.run sink transport spec (Emission.idle sources)
      return outcome

/-- How many documents a specification may be spread over. -/
def documentLimit : Nat := 1000000

/-- Resolves the specification at a location. -/
def resolve (access : FileAccess m) (transport : Transport m) (location : String) :
    m (Except ResolveError Specification) := do
  let docs ← Documents.gather (Documents.loadFrom access transport) location documentLimit []
  return (docs.resolve location).result

/-- Compiles the specification at a location. -/
def compile (access : FileAccess m) (sink : Sink m) (transport : Transport m)
    (location : String) : m (Except CompileError Report) := do
  match ← resolve access transport location with
  | .ok spec => compileSpecification sink transport spec
  | .error cause => return .error (.resolution cause)

end Compilation

end LinkedApi
