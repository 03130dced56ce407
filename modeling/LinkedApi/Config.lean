import LinkedApi.Environment
import LinkedApi.FileAccess
import LinkedApi.Toml.Parser
import LinkedApi.Toml.Printer
import LinkedApi.Transport.Settings
import LinkedApi.Version

/-!
# Configuration

Settings are read from a file with a section for each concern. A section that is not given has
its defaults, and what is not known is passed over.
-/

namespace LinkedApi

structure Config where
  /-- Level or filter of the log. -/
  logLevel : String
  logFile : Option String
  /-- Location of the specification. -/
  input : Option String
  /-- Directory of the artifacts. -/
  output : String
  transport : TransportSettings
  deriving DecidableEq, Repr

inductive ConfigError where
  | file (cause : FileError)
  /-- The file is no TOML text, or no configuration. -/
  | malformed
  | noDirectory
  deriving DecidableEq, Repr

def ConfigError.message : ConfigError → String
  | .file cause => s!"Failed to read config file: {cause.message}"
  | .malformed => "Failed to parse config file"
  | .noDirectory => "Could not find user config directory"

namespace Config

def defaultLevel : String := "info"

/-- Where artifacts go when nothing else is said. -/
def defaultOutput (env : Environment) : String :=
  match env.outputDirectory, env.currentDirectory with
  | some directory, _ => directory
  | none, some directory => Path.append directory "generated"
  | none, none => "generated"

def default (env : Environment) : Config where
  logLevel := defaultLevel
  logFile := none
  input := none
  output := defaultOutput env
  transport := .default

/-- The file that is read when no other is named. -/
def defaultPath (env : Environment) : Except ConfigError String :=
  let within (directory : String) : String :=
    Path.append (Path.append directory programName) "config.toml"
  match env.configHome.filter (·.startsWith "/"), env.home.filter (· ≠ "") with
  | some directory, _ => .ok (within directory)
  | none, some home => .ok (within (Path.append home ".config"))
  | none, none => .error .noDirectory

/-! ## Reading -/

/-- The level and the file of the log. -/
private def loggingOf? : Option Json → Option (String × Option String)
  | none => some (defaultLevel, none)
  | some section_ => do
    match ← section_.record? ["level", "file"] with
    | [some level, file] => return (← level.string?, ← Json.optional? Json.string? file)
    | _ => none

/-- The specification and the directory of the artifacts. -/
private def generationOf? (env : Environment) : Option Json → Option (Option String × String)
  | none => some (none, defaultOutput env)
  | some section_ => do
    match ← section_.record? ["input_path", "output_dir"] with
    | [input, some output] => return (← Json.optional? Json.string? input, ← output.string?)
    | _ => none

private def transportOf? : Option Json → Option TransportSettings
  | none => some .default
  | some section_ => TransportSettings.ofJson? section_

def ofJson? (env : Environment) (j : Json) : Option Config := do
  match ← j.record? ["logging", "codegen", "transport"] with
  | [logging, generation, transport] =>
    let (logLevel, logFile) ← loggingOf? logging
    let (input, output) ← generationOf? env generation
    return { logLevel, logFile, input, output, transport := ← transportOf? transport }
  | _ => none

/-- The configuration that a text writes. -/
def parse? (env : Environment) (text : String) : Option Config := do
  ofJson? env (.obj (Toml.entriesToJson (← Toml.parse? text)))

/-! ## Writing -/

/-- A line that sets a key. -/
private def setting (key value : String) : List String := [key ++ " = " ++ value]

private def quoted (key value : String) : List String :=
  setting key (String.ofList (Toml.encodeString value.toList))

private def quoted? (key : String) (value : Option String) : List String :=
  (value.map (quoted key)).getD []

/-- The lines of the text of a configuration. -/
def lines (c : Config) : List String :=
  ["[logging]"] ++ quoted "level" c.logLevel ++ quoted? "file" c.logFile ++
    ["", "[codegen]"] ++ quoted? "input_path" c.input ++ quoted "output_dir" c.output ++
    ["", "[transport]"] ++
    ((c.transport.timeout.map fun n => setting "timeout_secs" s!"{n}").getD []) ++
    quoted? "user_agent" c.transport.userAgent

def print (c : Config) : String := String.join (c.lines.map (· ++ "\n"))

/-! ## Files -/

variable {m : Type → Type} [Monad m]

def load (access : FileAccess m) (env : Environment) (path : String) :
    m (Except ConfigError Config) := do
  match ← access.readText path with
  | .error cause => return .error (.file cause)
  | .ok text =>
    match parse? env text with
    | some config => return .ok config
    | none => return .error .malformed

/-- Loads a file if it exists. -/
def loadOrDefault (access : FileAccess m) (env : Environment) (path : String) :
    m (Except ConfigError Config) := do
  if ← access.exists? path then load access env path else return .ok (default env)

def save (access : FileAccess m) (c : Config) (path : String) : m (Except ConfigError Unit) := do
  return (← access.writeText path c.print).mapError .file

end Config

end LinkedApi
