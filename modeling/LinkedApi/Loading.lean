import LinkedApi.PipeModule
import LinkedApi.Text.Shown
import LinkedApi.Text.Trim
import LinkedApi.Transport.Basic

/-!
# Loading of pipe modules

The code of a chain is fetched at once. Only when every fetch has settled are the outcomes
looked at, in the declared order, so that it does not matter which came first.
-/

namespace LinkedApi

/-- The code of a pipe module could not be fetched. -/
structure LoadingError where
  pipe : PipeReference
  cause : TransportError
  deriving DecidableEq, Repr

def LoadingError.message (e : LoadingError) : String :=
  s!"failed to fetch pipe-module '{e.pipe.name}' from {e.pipe.source}: {e.cause.message}"

namespace Loading

/-- The pipe modules of a chain, given what was fetched for each; the first failure in the order
of the chain is reported. -/
def assemble : List (PipeReference × Fetched) → Except LoadingError (List PipeModule)
  | [] => .ok []
  | (pipe, .ok body) :: rest => do
    return pipe.withCode (String.ofList (Text.trim body.toList)) :: (← assemble rest)
  | (pipe, .error cause) :: _ => .error ⟨pipe, cause⟩

/-- Loads the chain of one operation. -/
def load {m : Type → Type} [Monad m] (transport : Transport m) (chain : List PipeReference) :
    m (Except LoadingError (List PipeModule)) := do
  if chain.isEmpty then return .ok []
  else
    let outcomes ← transport.fetchAll (chain.map (·.source))
    return assemble (chain.zip outcomes)

/-- How a loader is shown. -/
def shown {m : Type → Type} (transport : Transport m) : String :=
  Text.shownRecord "PipeModuleLoader" [("transport", Text.shown transport.name)]

end Loading

end LinkedApi
