import LinkedApi.CommandLine
import LinkedApi.Compilation
import LinkedApi.Config
import LinkedApi.Logging
import LinkedApi.Transport.Files

/-!
# The program

The arguments and the configuration give the settings of a run, arguments first. A run compiles
one specification into files.
-/

namespace LinkedApi

/-- What the program works with. -/
structure System (m : Type → Type) where
  access : FileAccess m
  network : Network m
  environment : Environment

structure Settings where
  /-- Location of the specification. -/
  specification : String
  /-- Directory of the artifacts. -/
  output : String
  logLevel : String
  logFile : Option String
  transport : TransportSettings
  deriving DecidableEq, Repr

inductive ApplicationError where
  | noSpecification
  | config (cause : ConfigError)
  | logging (cause : LoggingError)
  | transport (cause : TransportError)
  | compilation (cause : CompileError)
  deriving DecidableEq, Repr

def ApplicationError.message : ApplicationError → String
  | .noSpecification => "no specification given; pass SPEC or set codegen.input_path"
  | .config cause => cause.message
  | .logging cause => cause.message
  | .transport cause => cause.message
  | .compilation cause => cause.message

/-- How a run of the program ends. -/
structure Completion where
  exitCode : UInt8
  /-- What is printed. -/
  output : String
  /-- What is printed beside the output. -/
  messages : String
  deriving DecidableEq, Repr

namespace Settings

/-- The settings that arguments and configuration give. -/
def of (a : Arguments) (c : Config) : Except ApplicationError Settings :=
  match a.specification.or c.input with
  | none => .error .noSpecification
  | some specification =>
    .ok {
      specification
      output := a.output.getD c.output
      logLevel := a.logLevel.getD c.logLevel
      logFile := c.logFile
      transport := c.transport }

end Settings

namespace Application

variable {m : Type → Type} [Monad m]

/-- The configuration of the file that the arguments name, which must exist, or of the user's
file if there is one. -/
def configuration (system : System m) (a : Arguments) : m (Except ConfigError Config) :=
  match a.config, Config.defaultPath system.environment with
  | some path, _ => Config.load system.access system.environment path
  | none, .ok path => Config.loadOrDefault system.access system.environment path
  | none, .error _ => return .ok (Config.default system.environment)

/-- The settings of a run. -/
def settings (system : System m) (a : Arguments) : m (Except ApplicationError Settings) := do
  match ← configuration system a with
  | .error cause => return .error (.config cause)
  | .ok config => return Settings.of a config

/-- Compiles the specification into the directory of the artifacts. -/
def run (system : System m) (s : Settings) : m (Except ApplicationError Report) := do
  match Transport.routing system.access system.network s.transport with
  | .error cause => return .error (.transport cause)
  | .ok transport =>
    let sink := Sink.files system.access s.output
    return (← Compilation.compile system.access sink transport s.specification).mapError
      .compilation

/-- How a run ends that fails; `logged` is what the log says beside the messages. -/
def failed (logged : String) (cause : ApplicationError) : Completion :=
  ⟨1, "", logged ++ "error: " ++ cause.message ++ "\n"⟩

/-- What is said of a run that succeeds. -/
def summary (s : Settings) (r : Report) : String := s!"{r.toString} into {s.output}"

/-- Runs with an open log. -/
def runLogged (system : System m) (s : Settings) (log : Log) : m Completion := do
  let line := log.line system.access programName
  match ← run system s with
  | .ok report =>
    let logged ← line .info s!"generated {summary s report}"
    return ⟨0, s!"Generated {summary s report}\n", logged⟩
  | .error cause => return failed (← line .error cause.message) cause

/-- Carries out what the arguments ask for. -/
def perform (system : System m) (a : Arguments) : m Completion := do
  match ← settings system a with
  | .error cause => return failed "" cause
  | .ok s =>
    match ← Log.start system.access system.environment false s.logLevel s.logFile with
    | .error cause => return failed "" (.logging cause)
    | .ok log => runLogged system s log

/-- The whole program. -/
def execute (system : System m) (arguments : List String) : m Completion :=
  match CommandLine.parse arguments with
  | .ok a => perform system a
  | .error .helpWanted => return ⟨0, UsageError.helpWanted.message, ""⟩
  | .error .versionWanted => return ⟨0, UsageError.versionWanted.message, ""⟩
  | .error problem => return ⟨2, "", problem.message⟩

end Application

end LinkedApi
