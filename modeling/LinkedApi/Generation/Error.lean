import LinkedApi.Artifact
import LinkedApi.FileError
import LinkedApi.Registry
import LinkedApi.Route
import LinkedApi.Template

/-!
# Failures of generation

Why a step of writing an artifact fails.
-/

namespace LinkedApi

/-- How far the writing of an artifact has come. -/
inductive Phase where
  /-- The header is not yet written. -/
  | fresh
  /-- The header is written, and entities may follow. -/
  | opened
  /-- The export section is written, and nothing may follow. -/
  | sealed
  deriving DecidableEq, Repr

def Phase.label : Phase → String
  | .fresh => "fresh"
  | .opened => "open"
  | .sealed => "sealed"

/-- The steps of writing an artifact. -/
inductive WritingStep where
  | header
  | entity
  | exports
  deriving DecidableEq, Repr

def WritingStep.label : WritingStep → String
  | .header => "begin"
  | .entity => "emit"
  | .exports => "end"

inductive GenerationError where
  | file (cause : FileError)
  | template (cause : TemplateError)
  | duplicateName (what : DuplicateName)
  /-- A route refers to something that has no definition. -/
  | danglingReference (route : Route) (kind : NameKind) (name : String)
  /-- A step is taken in a phase in which it is not allowed. -/
  | outOfPhase (step : WritingStep) (artifact : Artifact) (phase : Phase)
  deriving DecidableEq, Repr

def GenerationError.message : GenerationError → String
  | .file cause => cause.message
  | .template cause => cause.message
  | .duplicateName what => what.message
  | .danglingReference route kind name =>
    s!"route {route.toString} references {kind.label} '{name}' which has not been emitted"
  | .outOfPhase step artifact phase =>
    s!"cannot {step.label} {artifact.fileName} while {phase.label}"

end LinkedApi
