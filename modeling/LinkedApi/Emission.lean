import LinkedApi.Extraction
import LinkedApi.Generation.PipeModules
import LinkedApi.Generation.Queries
import LinkedApi.Generation.Routes
import LinkedApi.Loading
import LinkedApi.Resolution

/-!
# Emission

The three artifacts are written side by side: all headers, then for each operation its pipe
modules, its query and its route, and in the end all export sections. A route is thus written
only after everything it refers to.
-/

namespace LinkedApi

/-- How far an emission has come; it only moves forward. -/
inductive Stage where
  | idle
  /-- The headers are being written. -/
  | prewriting
  /-- Operations may be emitted. -/
  | emitting
  /-- The export sections are being written. -/
  | postwriting
  | done
  deriving DecidableEq, Repr

namespace Stage

def label : Stage → String
  | .idle => "idle"
  | .prewriting => "prewriting"
  | .emitting => "emitting"
  | .postwriting => "postwriting"
  | .done => "done"

def shown : Stage → String
  | .idle => "Idle"
  | .prewriting => "Prewriting"
  | .emitting => "Emitting"
  | .postwriting => "Postwriting"
  | .done => "Done"

end Stage

/-- What is asked of an emission. -/
inductive EmissionStep where
  | begin
  | emit
  | finish
  deriving DecidableEq, Repr

def EmissionStep.label : EmissionStep → String
  | .begin => "begin"
  | .emit => "emit"
  | .finish => "finish"

/-- Why a specification cannot be compiled. -/
inductive CompileError where
  | resolution (cause : ResolveError)
  | extraction (cause : ExtractError)
  | loading (cause : LoadingError)
  | generation (cause : GenerationError)
  /-- An artifact cannot be created. -/
  | creation (cause : FileError)
  /-- A step is asked for in a stage in which it is not allowed. -/
  | outOfStage (step : EmissionStep) (stage : Stage)
  deriving DecidableEq, Repr

def CompileError.message : CompileError → String
  | .resolution cause => cause.message
  | .extraction cause => cause.message
  | .loading cause => cause.message
  | .generation cause => cause.message
  | .creation cause => cause.message
  | .outOfStage step stage => s!"emitter cannot {step.label} while {stage.label}"

/-- How much has been written. -/
structure Report where
  routes : Nat
  queries : Nat
  /-- Pipe modules, each counted once. -/
  pipeModules : Nat
  deriving DecidableEq, Repr

namespace Report

def toString (r : Report) : String :=
  s!"{r.routes} route(s), {r.queries} query definition(s), {r.pipeModules} pipe-module(s)"

def shown (r : Report) : String :=
  Text.shownRecord "CompileReport"
    [("routes", s!"{r.routes}"), ("queries", s!"{r.queries}"),
      ("pipe_modules", s!"{r.pipeModules}")]

end Report

structure Emission where
  stage : Stage
  writers : Writers

/-- Steps that work on an emission, keep what they have done when they fail, and have effects
in `m`. -/
abbrev Emitting (m : Type → Type) := ExceptT CompileError (StateT Emission m)

namespace Emission

def idle (dataSources : List DataSource) : Emission := ⟨.idle, .fresh dataSources⟩

def report (e : Emission) : Report where
  routes := e.writers.routes.length
  queries := e.writers.registry.count .query
  pipeModules := e.writers.registry.count .pipeModule

/-- How an emission is shown. -/
def shown (e : Emission) : String :=
  Text.shownRecord "MultiArtifactEmitter"
    [("state", e.stage.shown), ("report", e.report.shown)]

variable {m : Type → Type} [Monad m]

def requireStage (step : EmissionStep) (expected : Stage) : Emitting m Unit := do
  let stage := (← get).stage
  if stage = expected then return
  else throw (.outOfStage step stage)

def enter (stage : Stage) : Emitting m Unit := modify ({ · with stage })

/-- Works on the writers. -/
def write (steps : Writing m α) : Emitting m α := fun e => do
  let (outcome, writers) ← steps e.writers
  return (outcome.mapError .generation, { e with writers })

/-- Writes every header. -/
def begin (sink : Sink m) : Emitting m Unit := do
  requireStage .begin .idle
  enter .prewriting
  write (Writers.beginPipes sink)
  write (Writers.beginQueries sink)
  write (Writers.beginRoutes sink)
  enter .emitting

/-- What an operation declares. -/
def declared (op : Operation) : Emitting m Declaration :=
  match op.declaration with
  | .ok declaration => return declaration
  | .error cause => throw (.extraction cause)

/-- The chain of an operation with its code. -/
def loaded (transport : Transport m) (chain : List PipeReference) :
    Emitting m (List PipeModule) := fun e => do
  let outcome ← Loading.load transport chain
  return (outcome.mapError .loading, e)

/-- Writes everything that one operation declares. -/
def emit (sink : Sink m) (transport : Transport m) (op : Operation) : Emitting m Unit := do
  requireStage .emit .emitting
  let declaration ← declared op
  let chain ← loaded transport declaration.pipes
  write (Writers.emitPipes sink chain)
  write (Writers.emitQuery sink declaration.query)
  write (Writers.emitRoute sink {
    route := declaration.route
    query := declaration.query.name
    pipes := chain.map (·.name) })

def emitAll (sink : Sink m) (transport : Transport m) : List Operation → Emitting m Unit
  | [] => return
  | op :: rest => do
    emit sink transport op
    emitAll sink transport rest

/-- Writes every export section. -/
def finish (sink : Sink m) : Emitting m Report := do
  requireStage .finish .emitting
  enter .postwriting
  write (Writers.closePipes sink)
  write (Writers.closeQueries sink)
  write (Writers.closeRoutes sink)
  enter .done
  return (← get).report

/-- Writes a whole specification, in the order of its declaration. -/
def run (sink : Sink m) (transport : Transport m) (spec : Specification) : Emitting m Report := do
  begin sink
  emitAll sink transport spec.operations
  finish sink

end Emission

end LinkedApi
