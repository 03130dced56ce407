import LinkedApi.Generation.Error
import LinkedApi.Sink

/-!
# Buffers of artifacts

Text for an artifact is collected and then appended in one piece. Text that cannot be appended
stays, and goes first in the next attempt.
-/

namespace LinkedApi

structure Buffer where
  phase : Phase
  /-- Text that has not been appended yet. -/
  pending : String
  deriving DecidableEq, Repr

/-- Steps that work on a buffer, keep what they have done when they fail, and have effects
in `m`. -/
abbrev Buffering (m : Type → Type) := ExceptT GenerationError (StateT Buffer m)

namespace Buffer

def fresh : Buffer := ⟨.fresh, ""⟩

variable {m : Type → Type} [Monad m]

/-- Refuses a step unless it belongs to the present phase. -/
def require (artifact : Artifact) (step : WritingStep) (expected : Phase) : Buffering m Unit := do
  let phase := (← get).phase
  if phase = expected then return
  else throw (.outOfPhase step artifact phase)

/-- Starts the artifact. -/
def start (artifact : Artifact) : Buffering m Unit := do
  require artifact .header .fresh
  modify ({ · with phase := .opened })

def push (text : String) : Buffering m Unit :=
  modify fun b => { b with pending := b.pending ++ text }

/-- Appends what is pending, if there is anything. -/
def flush (sink : Sink m) (artifact : Artifact) : Buffering m Unit := do
  let text := (← get).pending
  if text.isEmpty then return
  match ← sink.append artifact text with
  | .ok () => modify ({ · with pending := "" })
  | .error cause => throw (.file cause)

/-- Appends what is pending and closes the artifact. -/
def close (sink : Sink m) (artifact : Artifact) : Buffering m Unit := do
  require artifact .exports .opened
  flush sink artifact
  modify ({ · with phase := .sealed })

end Buffer

end LinkedApi
