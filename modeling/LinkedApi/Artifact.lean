/-!
# Generated artifacts

The three modules that are generated from a specification.
-/

namespace LinkedApi

inductive Artifact where
  | pipeModules
  | query
  | routes
  deriving DecidableEq, Repr

namespace Artifact

/-- All artifacts, in the order in which they are created and begun. -/
def all : List Artifact := [.pipeModules, .query, .routes]

def label : Artifact → String
  | .pipeModules => "pipe-modules"
  | .query => "query"
  | .routes => "routes"

def fileName : Artifact → String
  | .pipeModules => "pipeModules.js"
  | .query => "executeQuery.js"
  | .routes => "routes.js"

def toString (a : Artifact) : String := a.fileName

end Artifact

end LinkedApi
