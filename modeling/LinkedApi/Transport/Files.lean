import LinkedApi.FileAccess
import LinkedApi.Http.Client
import LinkedApi.Location

/-!
# Transports for files, and for files and the web
-/

namespace LinkedApi.Transport

variable {m : Type → Type} [Monad m]

def fetchFile (access : FileAccess m) (location : String) : m Fetched := do
  match ← access.readText (Location.filePath location) with
  | .ok text => return .ok text
  | .error cause => return .error (.file location cause.message)

/-- Reads files. -/
def files (access : FileAccess m) : Transport m := .each "file" (fetchFile access)

/-- A location of a kind that no transport serves. -/
def hasOtherScheme (location : String) : Bool :=
  hasInfix "://".toList location.toList && !location.startsWith "file://"
where
  /-- Whether a text stands somewhere in another. -/
  hasInfix (part : List Char) : List Char → Bool
    | [] => part.isEmpty
    | c :: rest => part.isPrefixOf (c :: rest) || hasInfix part rest

/-- Takes remote locations from the network and all others from files. -/
def routing (access : FileAccess m) (network : Network m) (settings : TransportSettings) :
    Except TransportError (Transport m) := do
  let web ← Http.transport network settings
  return .each "routing" fun location =>
    if Location.isRemote location then web.fetch location
    else if hasOtherScheme location then return .error (.unsupportedScheme location)
    else fetchFile access location

end LinkedApi.Transport
