import LinkedApi.Resolution.Expansion
import LinkedApi.Specification

/-!
# Resolution of specifications

The tree of a document without references, and the specification it holds. If references fail,
the first of them is reported.
-/

namespace LinkedApi

inductive ResolveError where
  | unresolved (what : UnresolvedReference)
  /-- The document itself cannot be loaded. -/
  | root (location : String) (cause : LoadFailure)
  | specification (cause : SpecificationError)
  deriving DecidableEq, Repr

def ResolveError.message : ResolveError → String
  | .unresolved what => what.message
  | .root location cause => s!"cannot load specification {location}: {cause.message}"
  | .specification cause => cause.message

namespace Documents

/-- What resolving gives, with the locations that were asked for, in order. -/
structure Resolved (α : Type) where
  result : Except ResolveError α
  asked : List Location

/-- The tree of the document at a location, with every reference replaced. -/
def resolveTree (docs : Documents) (text : String) : Resolved Yaml :=
  let location := Location.ofText text
  match Expansion.load docs location .start with
  | (.error cause, p) => ⟨.error (.root location.toString cause), p.loaded.map (·.1)⟩
  | (.ok root, p) =>
    let (tree, p) := Expansion.document docs ⟨location, root⟩ p
    let result :=
      match p.failures with
      | first :: _ => .error (.unresolved first)
      | [] => .ok tree
    ⟨result, p.loaded.map (·.1)⟩

/-- The specification that the document at a location holds. -/
def resolve (docs : Documents) (text : String) : Resolved Specification :=
  let resolved := docs.resolveTree text
  ⟨resolved.result.bind fun tree => (Specification.ofTree tree).mapError .specification,
    resolved.asked⟩

end Documents

end LinkedApi
