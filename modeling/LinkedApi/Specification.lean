import LinkedApi.Yaml.Basic

/-!
# Specifications

The top level of a resolved document: the data sources, and under each path its operations by
method. Whether an operation makes sense is not decided here.
-/

namespace LinkedApi

/-- One operation as declared: its path and method exactly as written, and its node. -/
structure Operation where
  path : String
  method : String
  node : Yaml
  deriving Repr

/-- Why a document is no specification. The kinds are those of the nodes found. -/
inductive SpecificationError where
  | rootNotMapping (found : String)
  | pathsNotMapping (found : String)
  | pathNotString (found : String)
  | methodsNotMapping (path found : String)
  | methodNotString (found : String)
  deriving DecidableEq, Repr

namespace SpecificationError

def reason : SpecificationError → String
  | .rootNotMapping found => s!"root must be a mapping, found {found}"
  | .pathsNotMapping found => s!"'paths' must be a mapping, found {found}"
  | .pathNotString found => s!"path keys must be strings, found {found}"
  | .methodsNotMapping path found =>
    s!"path '{path}' must map methods to operations, found {found}"
  | .methodNotString found => s!"method keys must be strings, found {found}"

def message (e : SpecificationError) : String := "Malformed specification: " ++ e.reason

end SpecificationError

structure Specification where
  /-- The node of the data sources, null when there is none. -/
  dataSources : Yaml
  /-- The operations in the order of their declaration. -/
  operations : List Operation
  deriving Repr

namespace Specification

def methodsOf (path : String) :
    List (Yaml × Yaml) → Except SpecificationError (List Operation)
  | [] => .ok []
  | (key, node) :: rest => do
    match key.text? with
    | none => throw (.methodNotString key.kind)
    | some method => return { path, method, node } :: (← methodsOf path rest)

def operationsUnder (path : String) : Yaml → Except SpecificationError (List Operation)
  | .null => .ok []
  | .map methods => methodsOf path methods
  | other => throw (.methodsNotMapping path other.kind)

def operationsOf : List (Yaml × Yaml) → Except SpecificationError (List Operation)
  | [] => .ok []
  | (key, item) :: rest => do
    match key.text? with
    | none => throw (.pathNotString key.kind)
    | some path => return (← operationsUnder path item) ++ (← operationsOf rest)

def ofEntries (entries : List (Yaml × Yaml)) :
    Except SpecificationError Specification := do
  let operations ←
    match Yaml.lookup? entries "paths" with
    | none => pure []
    | some .null => pure []
    | some (.map paths) => operationsOf paths
    | some other => throw (.pathsNotMapping other.kind)
  return { dataSources := (Yaml.lookup? entries "datasources").getD .null, operations }

/-- The specification that a document's tree holds; an empty document holds an empty one. -/
def ofTree : Yaml → Except SpecificationError Specification
  | .null => ofEntries []
  | .map entries => ofEntries entries
  | other => throw (.rootNotMapping other.kind)

end Specification

end LinkedApi
