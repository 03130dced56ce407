import LinkedApi.DataSource
import LinkedApi.Generation.Buffer

/-!
# The writers of the artifacts

Each artifact has a writer: first its header, then a piece for each entity, last its export
section. The writers share one registry of names and otherwise keep what only they need.
-/

namespace LinkedApi

structure Writers where
  registry : Registry
  buffers : Artifact → Buffer
  /-- The pipe modules that are defined, with their sources. -/
  defined : List (String × String)
  /-- The names of the chain that was written last. -/
  chain : List String
  dataSources : List DataSource
  /-- The name of the query that was written last. -/
  lastQuery : Option String
  /-- The routes that are written. -/
  routes : List Route

/-- Steps that work on the writers, keep what they have done when they fail, and have effects
in `m`. -/
abbrev Writing (m : Type → Type) := ExceptT GenerationError (StateT Writers m)

namespace Writers

/-- Writers that have not begun. -/
def fresh (dataSources : List DataSource) : Writers where
  registry := .empty
  buffers := fun _ => .fresh
  defined := []
  chain := []
  dataSources := dataSources
  lastQuery := none
  routes := []

def phase (w : Writers) (artifact : Artifact) : Phase := (w.buffers artifact).phase

def setBuffer (w : Writers) (artifact : Artifact) (buffer : Buffer) : Writers :=
  { w with buffers := fun other => if other = artifact then buffer else w.buffers other }

variable {m : Type → Type} [Monad m]

/-- Works on the buffer of one artifact. -/
def onBuffer (artifact : Artifact) (steps : Buffering m α) : Writing m α := fun w => do
  let (outcome, buffer) ← steps (w.buffers artifact)
  return (outcome, w.setBuffer artifact buffer)

/-- Writes a header. -/
def writeHeader (sink : Sink m) (artifact : Artifact) (header : String) : Writing m Unit :=
  onBuffer artifact do
    Buffer.start artifact
    Buffer.push header
    Buffer.flush sink artifact

/-- Writes an export section. -/
def writeExports (sink : Sink m) (artifact : Artifact) (exports : String) : Writing m Unit :=
  onBuffer artifact do
    Buffer.push exports
    Buffer.close sink artifact

def requireOpen (artifact : Artifact) (step : WritingStep) : Writing m Unit :=
  onBuffer artifact (Buffer.require artifact step .opened)

/-- The text of a template with its slots filled. -/
def filled (template : Template) (slots : List Slot) : Writing m String :=
  match template.render slots with
  | .ok text => return text
  | .error cause => throw (.template cause)

/-- Registers a name, which must be new. -/
def commit (kind : NameKind) (name : String) : Writing m Unit := do
  match (← get).registry.register kind name with
  | .ok registry => modify ({ · with registry })
  | .error what => throw (.duplicateName what)

/-- Names as they stand in an export list; each must be an identifier. -/
def exportList (names : List String) : Writing m String :=
  match names.find? fun name => !Text.isIdentifier name with
  | some name => throw (.template (.invalidIdentifier name))
  | none => return ", ".intercalate names

end Writers

end LinkedApi
