import LinkedApi.Application
import LinkedApi.Http.Message
import Std.Async.DNS
import Std.Async.TCP

/-!
# The command

The program on the files and the network of the machine.
-/

namespace LinkedApi.Command

open Std.Async

/-! ## Files -/

/-- The number of a system error; some operations give it with a minus sign. -/
def errorNumber (code : UInt32) : Nat := min code.toNat (0 - code).toNat

/-- What the system reports of a failed file operation. -/
def fileError (e : IO.Error) : FileError :=
  let other : FileError := .other (toString e)
  match e with
  | .noFileOrDirectory .. => .notFound
  | .alreadyExists .. => .exists
  | .inappropriateType _ code _ => if errorNumber code = 21 then .isDirectory else .notDirectory
  | .invalidArgument _ code _ => if errorNumber code = 36 then .nameTooLong else other
  | _ => other

/-- Runs a file operation on a path, which must not contain the character that ends paths. -/
def attempt (path : String) (operation : IO α) : IO (Except FileError α) := do
  if path.toList.contains '\x00' then return .error .nulInPath
  else if path.isEmpty then return .error .notFound
  else
    try
      return .ok (← operation)
    catch e => return .error (fileError e)

def isDirectory (path : String) : IO Bool := do ((← IO.currentDir) / path).isDir

def fileExists (path : String) : IO Bool := do
  if path.isEmpty then return false else ((← IO.currentDir) / path).pathExists

def readText (path : String) : IO (Except FileError String) := do
  let outcome ← attempt path do
    if ← isDirectory path then return none else return some (← IO.FS.readBinFile path)
  return outcome.bind fun bytes? =>
    match bytes? with
    | none => .error .isDirectory
    | some bytes =>
      match String.fromUTF8? bytes with
      | some text => .ok text
      | none => .error .notText

def append (path text : String) : IO (Except FileError Unit) :=
  attempt path do
    let handle ← IO.FS.Handle.mk path .append
    handle.putStr text

/-- Makes a directory after those on the way to it. -/
partial def makeDirectories (path : String) : IO (Except FileError Unit) := do
  if path.isEmpty then return .ok ()
  let settled (outcome : Except FileError Unit) : IO (Except FileError Unit) := do
    match outcome with
    | .error cause => if ← isDirectory path then return .ok () else return .error cause
    | done => return done
  match ← attempt path (IO.FS.createDir path) with
  | .error .notFound =>
    match ← makeDirectories (Path.ofText path).parent.toString with
    | .ok () => settled (← attempt path (IO.FS.createDir path))
    | failed => return failed
  | outcome => settled outcome

def access : FileAccess IO where
  readText := readText
  writeText path text := attempt path (IO.FS.writeFile path text)
  appendText path text := do
    if ← fileExists path then append path text else return .error .notFound
  appendOrCreate := append
  makeDirectories := makeDirectories
  exists? := fileExists

/-! ## Network -/

/-- Everything that arrives until the connection is closed. -/
partial def receive (connection : TCP.Socket.Client) (received : ByteArray) :
    Async ByteArray := do
  match ← connection.recv? 65536 with
  | some bytes => receive connection (received ++ bytes)
  | none => return received

/-- Sends a request to the first address of its host, and reads the response. -/
def converse (request : HttpRequest) : Async (Option HttpResponse) := do
  let port := request.url.port.getD (Url.usualPort request.url.secure)
  let addresses ← DNS.getAddrInfo request.url.host s!"{port}"
  match addresses[0]? with
  | none => return none
  | some address =>
    let connection ← TCP.Socket.Client.mk
    connection.connect <|
      match address with
      | .v4 addr => .v4 { addr, port := port.toUInt16 }
      | .v6 addr => .v6 { addr, port := port.toUInt16 }
    connection.send (Http.requestText request).toUTF8
    return Http.response? (← receive connection .empty)

/-- Waits for a task, in steps of a tenth of a second, for so many of them at most. -/
def awaitFor (task : Task (Except IO.Error α)) : Nat → IO (Option α)
  | 0 => return none
  | steps + 1 => do
    if ← IO.hasFinished task then return task.get.toOption
    else
      IO.sleep 100
      awaitFor task steps

/-- Sends a request; connections are not encrypted. -/
def exchange (request : HttpRequest) : IO (Option HttpResponse) := do
  if request.url.secure then return none
  else
    let task ← IO.asTask (converse request).block
    match request.timeout with
    | some seconds => return (← awaitFor task (seconds * 10)).join
    | none => return task.get.toOption.join

/-! ## The whole -/

def environment : IO Environment := do
  let here ← IO.currentDir
  return {
    outputDirectory := ← IO.getEnv "OUT_DIR"
    logFilter := ← IO.getEnv "RUST_LOG"
    configHome := ← IO.getEnv "XDG_CONFIG_HOME"
    home := ← IO.getEnv "HOME"
    currentDirectory := some here.toString }

def run (arguments : List String) : IO UInt32 := do
  let system : System IO := ⟨access, ⟨exchange⟩, ← environment⟩
  let done ← Application.execute system arguments
  IO.print done.output
  IO.eprint done.messages
  return done.exitCode.toUInt32

end LinkedApi.Command

def main (arguments : List String) : IO UInt32 := LinkedApi.Command.run arguments
