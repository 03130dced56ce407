import LinkedApi.FileError
import LinkedApi.Resolution.Reference
import LinkedApi.Transport.Basic

/-!
# The documents that references reach

What can be loaded is fixed while a specification is resolved: each location always gives the
same tree or the same failure, and only finitely many give a tree.
-/

namespace LinkedApi

/-- Why a document cannot be loaded. -/
inductive LoadFailure where
  | file (cause : FileError)
  | transport (cause : TransportError)
  | notYaml
  deriving DecidableEq, Repr

def LoadFailure.message : LoadFailure → String
  | .file cause => cause.message
  | .transport cause => cause.message
  | .notYaml => "invalid YAML"

abbrev Loaded := Except LoadFailure Yaml

structure Documents where
  load : Location → Loaded
  /-- Locations that give a tree; those not listed do not. -/
  loadable : List Location
  mem_loadable : ∀ {location tree}, load location = .ok tree → location ∈ loadable

namespace Documents

/-- The references that stand in the documents that load. -/
def references (docs : Documents) : List String :=
  docs.loadable.flatMap fun location =>
    match docs.load location with
    | .ok tree => tree.references
    | .error _ => []

/-- How deep expansions can be nested: each adds another pair of a document that loads and a
pointer that is empty or stands in one of them. -/
def nestingBound (docs : Documents) : Nat :=
  (docs.loadable.length + 1) * (docs.references.length + 1)

end Documents

end LinkedApi
