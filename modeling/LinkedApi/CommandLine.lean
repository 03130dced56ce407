import LinkedApi.Version

/-!
# The command line

One argument names the specification; options are written with one letter or with their full
name. The first problem from left to right is reported, but a value that stands in an argument of
its own is looked at only when the next option or argument is taken.
-/

namespace LinkedApi

structure Arguments where
  specification : Option String
  output : Option String
  config : Option String
  logLevel : Option String
  deriving DecidableEq, Repr

/-- Why the arguments are not carried out. -/
inductive UsageError where
  | helpWanted
  | versionWanted
  | unknownArgument (argument : String)
  /-- An option has no value, or one that is empty. -/
  | invalidValue (option : String)
  /-- An option is given twice. -/
  | repeatedOption (option : String)
  /-- A flag has a value. -/
  | unexpectedValue (flag : String)
  deriving DecidableEq, Repr

namespace CommandLine

inductive Flag where
  | output
  | config
  | logLevel
  | help
  | version
  deriving DecidableEq, Repr

namespace Flag

def all : List Flag := [.output, .config, .logLevel, .help, .version]

def name : Flag → String
  | .output => "output"
  | .config => "config"
  | .logLevel => "log-level"
  | .help => "help"
  | .version => "version"

def letter? : Flag → Option Char
  | .output => some 'o'
  | .config => some 'c'
  | .logLevel => none
  | .help => some 'h'
  | .version => some 'V'

def takesValue : Flag → Bool
  | .help | .version => false
  | _ => true

def ofName? (name : String) : Option Flag := all.find? (·.name == name)

def ofLetter? (letter : Char) : Option Flag := all.find? (·.letter? == some letter)

def label (flag : Flag) : String := "--" ++ flag.name

end Flag

/-- Arguments taken so far. -/
structure Progress where
  taken : Arguments
  /-- An option that waits for its value, with the value once it is there. -/
  pending : Option (Flag × Option String)
  /-- Whether only arguments without dashes may follow. -/
  ended : Bool

def Progress.start : Progress := ⟨⟨none, none, none, none⟩, none, false⟩

/-- The value that an option has been given. -/
def valueOf (a : Arguments) : Flag → Option String
  | .output => a.output
  | .config => a.config
  | .logLevel => a.logLevel
  | .help | .version => none

/-- Gives an option its value. Paths are not empty, and no option is given twice. -/
def give (flag : Flag) (value : String) (p : Progress) : Except UsageError Progress :=
  if (valueOf p.taken flag).isSome then .error (.repeatedOption flag.label)
  else
    match flag with
    | .output =>
      if value.isEmpty then .error (.invalidValue flag.label)
      else .ok { p with taken := { p.taken with output := some value } }
    | .config =>
      if value.isEmpty then .error (.invalidValue flag.label)
      else .ok { p with taken := { p.taken with config := some value } }
    | .logLevel => .ok { p with taken := { p.taken with logLevel := some value } }
    | .help | .version => .ok p

/-- Takes the value of the option that waits for it. -/
def settle (p : Progress) : Except UsageError Progress :=
  match p.pending with
  | none => .ok p
  | some (flag, some value) => give flag value { p with pending := none }
  | some (flag, none) => .error (.invalidValue flag.label)

/-- Takes an option, with the value that is attached to it. -/
def takeFlag (flag : Flag) (attached : Option String) (p : Progress) :
    Except UsageError Progress := do
  let p ← settle p
  match flag, attached with
  | .help, _ => throw .helpWanted
  | .version, _ => throw .versionWanted
  | flag, some value => give flag value p
  | flag, none => return { p with pending := some (flag, none) }

/-- Takes an option written by its name, without the dashes. -/
def takeNamed (argument : List Char) (p : Progress) : Except UsageError Progress :=
  let name := String.ofList (argument.takeWhile (· ≠ '='))
  let attached :=
    match argument.dropWhile (· ≠ '=') with
    | _ :: value => some (String.ofList value)
    | [] => none
  match Flag.ofName? name with
  | none => .error (.unknownArgument ("--" ++ name))
  | some flag =>
    if !flag.takesValue && attached.isSome then .error (.unexpectedValue flag.label)
    else takeFlag flag attached p

/-- Takes options written by their letters, without the dash. What follows the letter of an option
with a value is its value; an equals sign between them does not count. -/
def takeLetters (letters : List Char) (p : Progress) : Except UsageError Progress :=
  match letters with
  | [] => .ok p
  | letter :: rest =>
    match Flag.ofLetter? letter with
    | none => .error (.unknownArgument (String.ofList ['-', letter]))
    | some flag =>
      if flag.takesValue then
        match rest with
        | [] => takeFlag flag none p
        | '=' :: value => takeFlag flag (some (String.ofList value)) p
        | value => takeFlag flag (some (String.ofList value)) p
      else
        match takeFlag flag none p with
        | .ok p => takeLetters rest p
        | .error e => .error e

/-- Takes an argument that is no option. -/
def takePlain (argument : String) (p : Progress) : Except UsageError Progress :=
  match p.pending, p.ended with
  | some (flag, none), false => .ok { p with pending := some (flag, some argument) }
  | _, _ => do
    if p.taken.specification.isSome then throw (.unknownArgument argument)
    let p ← settle p
    return { p with taken := { p.taken with specification := some argument } }

def take (p : Progress) (argument : String) : Except UsageError Progress :=
  if p.ended then takePlain argument p
  else
    match argument.toList with
    | ['-', '-'] => .ok { p with ended := true }
    | '-' :: '-' :: name => takeNamed name p
    | '-' :: letter :: rest => takeLetters (letter :: rest) p
    | _ => takePlain argument p

/-- Reads the arguments after the program's name. -/
def parse (arguments : List String) : Except UsageError Arguments := do
  return (← settle (← arguments.foldlM take .start)).taken

/-! ## Texts -/

def versionText : String := programName ++ " " ++ version ++ "\n"

def usageLine : String := "Usage: " ++ programName ++ " [OPTIONS] [SPEC]\n"

def helpText : String :=
  "Generate a Linked Data REST API (routes, queries, pipe-modules) from a YAML specification\n\n"
    ++ usageLine ++ "
Arguments:
  [SPEC]  Root YAML specification (path, file:// URI or http(s) URL)

Options:
  -o, --output <OUTPUT>        Directory receiving executeQuery.js, pipeModules.js and routes.js
  -c, --config <CONFIG>        Configuration file (defaults to the user config directory)
      --log-level <LOG_LEVEL>  Log level or filter directive, e.g. `debug` or `pipeline=trace,info`
  -h, --help                   Print help
  -V, --version                Print version
"

end CommandLine

def UsageError.message : UsageError → String
  | .helpWanted => CommandLine.helpText
  | .versionWanted => CommandLine.versionText
  | .unknownArgument argument => s!"error: unexpected argument '{argument}' found\n"
  | .invalidValue option => s!"error: a value is required for '{option}' but none was supplied\n"
  | .repeatedOption option => s!"error: the argument '{option}' cannot be used multiple times\n"
  | .unexpectedValue flag => s!"error: unexpected value for '{flag}' found\n"

end LinkedApi
