import LinkedApi.Environment
import LinkedApi.FileAccess
import LinkedApi.LogFilter

/-!
# The log

The log of a run is opened once. Its lines go to a file, or else beside the program's messages.
-/

namespace LinkedApi

inductive LoggingError where
  | invalidLevel (level : String)
  | file (cause : FileError)
  /-- The log has been opened before. -/
  | alreadyOpen
  deriving DecidableEq, Repr

def LoggingError.message : LoggingError → String
  | .invalidLevel level => s!"invalid log level '{level}'"
  | .file cause => s!"cannot open log file: {cause.message}"
  | .alreadyOpen => "logging already initialized"

/-- An open log. -/
structure Log where
  filter : LogFilter
  file : Option String
  deriving DecidableEq, Repr

namespace Log

/-- The filter of the environment if it is valid, else that of the configured level. -/
def filterFor (env : Environment) (level : String) : Except LoggingError LogFilter :=
  match env.logFilter.bind LogFilter.parse? with
  | some given => .ok given
  | none =>
    match LogFilter.parse? level with
    | some configured => .ok configured
    | none => .error (.invalidLevel level)

variable {m : Type → Type} [Monad m]

/-- Opens the log; `isOpen` tells whether that was done before. -/
def start (access : FileAccess m) (env : Environment) (isOpen : Bool) (level : String)
    (file : Option String) : m (Except LoggingError Log) := do
  match filterFor env level with
  | .error cause => return .error cause
  | .ok filter =>
    let opened : Except FileError Unit ←
      match file with
      | some path => access.appendOrCreate path ""
      | none => pure (.ok ())
    match opened with
    | .error cause => return .error (.file cause)
    | .ok () => if isOpen then return .error .alreadyOpen else return .ok ⟨filter, file⟩

/-- Writes a line if the log keeps it; what goes beside the program's messages is given back. -/
def line (access : FileAccess m) (log : Log) (target : String) (level : LogLevel)
    (text : String) : m String := do
  if log.filter.keeps target level then
    let line := s!"{level.name.toUpper} {text}\n"
    match log.file with
    | none => return line
    | some path =>
      let _ ← access.appendOrCreate path line
      return ""
  else return ""

end Log

end LinkedApi
