import LinkedApi.Extraction

/-!
# Validation

Everything a specification declares is extracted, in order, before anything is generated. Beyond
that, no two operations may have the same query name, and no pipe module may come from two
sources.
-/

namespace LinkedApi

/-- How much a specification declares. -/
structure Summary where
  dataSources : Nat
  /-- Operations, each with one route and one query. -/
  operations : Nat
  /-- Pipe modules, each counted once. -/
  pipeModules : Nat
  deriving DecidableEq, Repr

namespace Validation

/-- What the operations seen so far declare. -/
structure Seen where
  /-- Query names with the operations they belong to. -/
  queries : List (String × String)
  /-- Pipe modules with their sources. -/
  pipes : List (String × String)

def known? (pairs : List (String × String)) (name : String) : Option String :=
  (pairs.find? (·.1 == name)).map (·.2)

def addPipe (pipes : List (String × String)) (pipe : PipeReference) :
    Except ExtractError (List (String × String)) :=
  match known? pipes pipe.name with
  | none => .ok (pipes ++ [(pipe.name, pipe.source)])
  | some source =>
    if source = pipe.source then .ok pipes
    else
      .error (.duplicateName
        ⟨.pipeModule, pipe.name, some s!"sources {source} and {pipe.source}"⟩)

def addOperation (seen : Seen) (op : Operation) : Except ExtractError Seen := do
  let declared ← op.declaration
  let name := declared.query.name
  match known? seen.queries name with
  | some previous =>
    throw (.duplicateName ⟨.query, name, some s!"{previous} and {op.label}"⟩)
  | none =>
    return {
      queries := seen.queries ++ [(name, op.label)]
      pipes := ← declared.pipes.foldlM addPipe seen.pipes }

end Validation

/-- Checks a whole specification; the first problem in the order of declaration is reported. -/
def Specification.validate (spec : Specification) : Except ExtractError Summary := do
  let sources ← sourcesOf spec.dataSources
  let seen ← spec.operations.foldlM Validation.addOperation ⟨[], []⟩
  return {
    dataSources := sources.length
    operations := spec.operations.length
    pipeModules := seen.pipes.length }

end LinkedApi
