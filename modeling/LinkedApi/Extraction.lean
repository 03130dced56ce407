import LinkedApi.DataSource
import LinkedApi.Json.Parser
import LinkedApi.PipeModule
import LinkedApi.Query
import LinkedApi.Registry
import LinkedApi.Route
import LinkedApi.Specification
import LinkedApi.Text.SingleLine
import LinkedApi.Yaml.AsJson

/-!
# What a specification declares

The route, the query and the chain of pipe modules of one operation, and the data sources of the
whole specification. Each reader says exactly why it refuses a node.
-/

namespace LinkedApi

/-- What is wrong with the node of an operation. The kinds are those of the nodes found. -/
inductive Malformation where
  | noQuery
  | queryNotMapping (found : String)
  | noText
  | textNotString (found : String)
  | chainNotCollection (found : String)
  | pipeNameNotString (found : String)
  /-- `pipe` is the name of the pipe module, or its place where the name is not known. -/
  | noPipeField (pipe field : String)
  | pipeFieldNotString (pipe field found : String)
  deriving DecidableEq, Repr

def Malformation.message : Malformation → String
  | .noQuery => "missing 'query' block"
  | .queryNotMapping found => s!"'query' must be a mapping, found {found}"
  | .noText => "missing 'graphql-query'"
  | .textNotString found => s!"'graphql-query' must be a string, found {found}"
  | .chainNotCollection found =>
    s!"'postprocessing' must be a mapping or a sequence, found {found}"
  | .pipeNameNotString found => s!"pipe-module names must be strings, found {found}"
  | .noPipeField pipe field => s!"pipe-module {pipe} has no '{field}'"
  | .pipeFieldNotString pipe field found =>
    s!"pipe-module {pipe} '{field}' must be a string, found {found}"

/-- What is wrong with the context of a query. -/
inductive ContextProblem where
  | notJson
  | badKey (problem : Yaml.KeyProblem)
  | notContext (found : String)
  deriving DecidableEq, Repr

def ContextProblem.message : ContextProblem → String
  | .notJson => "not valid JSON"
  | .badKey problem => problem.message
  | .notContext found => s!"expected a JSON string or a mapping, found {found}"

/-- What is wrong with the data sources. -/
inductive SourcesProblem where
  | notMapping (found : String)
  | typeNotString (found : String)
  | locationNotString (type found : String)
  | locationsNotList (type found : String)
  deriving DecidableEq, Repr

def SourcesProblem.message : SourcesProblem → String
  | .notMapping found => s!"expected a mapping of type to locations, found {found}"
  | .typeNotString found => s!"data-source types must be strings, found {found}"
  | .locationNotString type found => s!"'{type}' locations must be strings, found {found}"
  | .locationsNotList type found => s!"'{type}' must list locations, found {found}"

/-- Why something cannot be extracted; `method` and `path` are as declared. -/
inductive ExtractError where
  | invalidMethod (method path : String)
  | malformedOperation (method path : String) (what : Malformation)
  | malformedSources (what : SourcesProblem)
  | invalidContext (method path : String) (what : ContextProblem)
  | invalidIdentifier (name method path : String)
  | duplicateName (what : DuplicateName)
  deriving DecidableEq, Repr

def ExtractError.message : ExtractError → String
  | .invalidMethod method path => s!"invalid routing method '{method}' for path {path}"
  | .malformedOperation method path what =>
    s!"malformed operation {method} {path}: {what.message}"
  | .malformedSources what => s!"malformed datasources: {what.message}"
  | .invalidContext method path what =>
    s!"invalid json-ld-context for {method} {path}: {what.message}"
  | .invalidIdentifier name method path =>
    s!"'{name}' declared by {method} {path} is not a valid identifier"
  | .duplicateName what => what.message

/-- Everything one operation declares. -/
structure Declaration where
  route : Route
  query : Query
  /-- The chain of pipe modules, in order. -/
  pipes : List PipeReference
  deriving Repr

namespace Operation

/-- The operation as messages name it. -/
def label (op : Operation) : String := s!"{op.method} {op.path}"

def malformed (op : Operation) (what : Malformation) : ExtractError :=
  .malformedOperation op.method op.path what

def invalidContext (op : Operation) (what : ContextProblem) : ExtractError :=
  .invalidContext op.method op.path what

def route (op : Operation) : Except ExtractError Route :=
  match Method.ofName? op.method with
  | some method => .ok { method, path := Route.routerPath op.path }
  | none => .error (.invalidMethod op.method op.path)

def queryText (op : Operation) (block : List (Yaml × Yaml)) :
    Except ExtractError String :=
  match Yaml.lookup? block "graphql-query" with
  | some (.str text) => .ok text
  | some other => .error (op.malformed (.textNotString other.kind))
  | none => .error (op.malformed .noText)

/-- The context is empty, the value of a JSON text, or a mapping taken as JSON. -/
def queryContext (op : Operation) (block : List (Yaml × Yaml)) :
    Except ExtractError Json :=
  match Yaml.lookup? block "json-ld-context" with
  | none => .ok (.obj [])
  | some .null => .ok (.obj [])
  | some (.str text) =>
    match Json.parse? text with
    | some context => .ok context
    | none => .error (op.invalidContext .notJson)
  | some (.map entries) =>
    match (Yaml.map entries).toJson with
    | .ok context => .ok context
    | .error problem => .error (op.invalidContext (.badKey problem))
  | some other => .error (op.invalidContext (.notContext other.kind))

def query (op : Operation) : Except ExtractError Query := do
  let route ← op.route
  let block ←
    match op.node.get? "query" with
    | some (.map block) => pure block
    | some other => throw (op.malformed (.queryNotMapping other.kind))
    | none => throw (op.malformed .noQuery)
  let text ← op.queryText block
  let context ← op.queryContext block
  let name := Query.nameOf route.method op.path
  if Text.isIdentifier name then
    return { name, text := String.ofList (Text.singleLine text.toList), context }
  else throw (.invalidIdentifier name op.method op.path)

/-- A field of a pipe module that must be a string. -/
def pipeField (op : Operation) (entry : Yaml) (field pipe : String) :
    Except ExtractError String :=
  match entry.get? field with
  | some (.str value) => .ok value
  | some other => .error (op.malformed (.pipeFieldNotString pipe field other.kind))
  | none => .error (op.malformed (.noPipeField pipe field))

/-- A chain given as a mapping of names to sources. -/
def pipesOfMapping (op : Operation) :
    List (Yaml × Yaml) → Except ExtractError (List PipeReference)
  | [] => .ok []
  | (key, entry) :: rest => do
    let name ←
      match key.text? with
      | some name => pure name
      | none => throw (op.malformed (.pipeNameNotString key.kind))
    let source ←
      match entry with
      | .str source => pure source
      | entry => op.pipeField entry "source" name
    return { name, source } :: (← op.pipesOfMapping rest)

/-- A chain given as a sequence of names with sources; `read` is what came before. -/
def pipesOfSequence (op : Operation) (read : List PipeReference) :
    List Yaml → Except ExtractError (List PipeReference)
  | [] => .ok read
  | entry :: rest => do
    let name ← op.pipeField entry "name" s!"entry {read.length}"
    let source ← op.pipeField entry "source" name
    if read.any (·.name == name) then
      throw (.duplicateName ⟨.pipeModule, name, some s!"declared twice by {op.label}"⟩)
    op.pipesOfSequence (read ++ [{ name, source }]) rest

/-- Whether a pipe module may have this name. -/
def isPipeName (name : String) : Bool := Text.isIdentifier name && !Text.isWrapperBinding name

/-- The chain of pipe modules in its declared order. -/
def pipes (op : Operation) : Except ExtractError (List PipeReference) := do
  let read ←
    match op.node.get? "postprocessing" with
    | none => pure []
    | some .null => pure []
    | some (.map entries) => op.pipesOfMapping entries
    | some (.seq items) => op.pipesOfSequence [] items
    | some other => throw (op.malformed (.chainNotCollection other.kind))
  match read.find? fun r => !isPipeName r.name with
  | some r => throw (.invalidIdentifier r.name op.method op.path)
  | none => return read

def declaration (op : Operation) : Except ExtractError Declaration := do
  return { route := ← op.route, query := ← op.query, pipes := ← op.pipes }

end Operation

namespace Specification

def locations (type : String) : List Yaml → Except ExtractError (List DataSource)
  | [] => .ok []
  | item :: rest => do
    match item.text? with
    | some value => return { type, value } :: (← locations type rest)
    | none => throw (.malformedSources (.locationNotString type item.kind))

def sourcesOfType (type : String) : Yaml → Except ExtractError (List DataSource)
  | .str value => .ok [{ type, value }]
  | .seq items => locations type items
  | .null => .ok []
  | other => throw (.malformedSources (.locationsNotList type other.kind))

def sourcesOfEntries : List (Yaml × Yaml) → Except ExtractError (List DataSource)
  | [] => .ok []
  | (key, node) :: rest => do
    match key.text? with
    | some type => return (← sourcesOfType type node) ++ (← sourcesOfEntries rest)
    | none => throw (.malformedSources (.typeNotString key.kind))

/-- The data sources that a node lists under their types, in order. -/
def sourcesOf : Yaml → Except ExtractError (List DataSource)
  | .null => .ok []
  | .map entries => sourcesOfEntries entries
  | other => throw (.malformedSources (.notMapping other.kind))

end Specification

end LinkedApi
