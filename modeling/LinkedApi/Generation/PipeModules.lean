import LinkedApi.Generation.Writers
import LinkedApi.PipeModule

/-!
# The module of the pipe modules

One definition for each pipe module. A chain that uses a module again does not define it again,
and must take it from the same source.
-/

namespace LinkedApi.Writers

namespace PipeModules

def header : String := "'use strict';\n\n"

def definition : Template := .ofText "// source: {{0}}
const {{1}} = {{2}};

"

def exports : Template := .ofText "module.exports = { {{0}} };\n"

def emptyExports : String := "module.exports = {};\n"

/-- The modules of a chain that are not defined yet; `seen` holds the names before. -/
def undefinedOf (defined : List (String × String)) (seen : List String) :
    List PipeModule → Except DuplicateName (List PipeModule)
  | [] => .ok []
  | pipe :: rest => do
    if seen.contains pipe.name then
      throw ⟨.pipeModule, pipe.name, some "declared twice in one post-processing chain"⟩
    match defined.find? (·.1 == pipe.name) with
    | some (_, source) =>
      if source = pipe.source then undefinedOf defined (seen ++ [pipe.name]) rest
      else throw ⟨.pipeModule, pipe.name, some s!"sources {source} and {pipe.source}"⟩
    | none => return pipe :: (← undefinedOf defined (seen ++ [pipe.name]) rest)

end PipeModules

variable {m : Type → Type} [Monad m]

def beginPipes (sink : Sink m) : Writing m Unit :=
  writeHeader sink .pipeModules PipeModules.header

/-- Adds the definition of one pipe module. -/
def definePipe (pipe : PipeModule) : Writing m Unit := do
  let text ← filled PipeModules.definition [.str pipe.source, .ident pipe.name, .raw pipe.code]
  commit .pipeModule pipe.name
  modify fun w => { w with defined := w.defined ++ [(pipe.name, pipe.source)] }
  onBuffer .pipeModules (Buffer.push text)

def definePipes : List PipeModule → Writing m Unit
  | [] => return
  | pipe :: rest => do
    definePipe pipe
    definePipes rest

/-- Writes the chain of one route. -/
def emitPipes (sink : Sink m) (chain : List PipeModule) : Writing m Unit := do
  requireOpen .pipeModules .entity
  modify ({ · with chain := [] })
  match PipeModules.undefinedOf (← get).defined [] chain with
  | .error what => throw (.duplicateName what)
  | .ok fresh =>
    definePipes fresh
    modify ({ · with chain := chain.map (·.name) })
    onBuffer .pipeModules (Buffer.flush sink .pipeModules)

def closePipes (sink : Sink m) : Writing m Unit := do
  requireOpen .pipeModules .exports
  let names := (← get).registry.names .pipeModule
  if names.isEmpty then writeExports sink .pipeModules PipeModules.emptyExports
  else
    let list ← exportList names
    writeExports sink .pipeModules (← filled PipeModules.exports [.raw list])

end LinkedApi.Writers
