import LinkedApi.FileError

/-!
# Transports

A transport fetches the texts stored at locations. Several fetches may be under way at once, but
every one has settled when the outcomes are given, in the order in which they were asked for.
-/

namespace LinkedApi

inductive TransportError where
  /-- The request could not be completed. -/
  | http (reason : String)
  /-- The server answered with a status that is no success. -/
  | status (location : String) (code : Nat)
  /-- A file could not be read. -/
  | file (location reason : String)
  | unsupportedScheme (location : String)
  | other (reason : String)
  deriving DecidableEq, Repr

def TransportError.message : TransportError → String
  | .http reason => s!"HTTP transport error: {reason}"
  | .status location code => s!"{location} answered with status {code}"
  | .file location reason => s!"I/O error reading {location}: {reason}"
  | .unsupportedScheme location => s!"Unsupported location scheme: {location}"
  | .other reason => s!"Other error: {reason}"

/-- The text at a location, or why there is none. -/
abbrev Fetched := Except TransportError String

/-- A way to fetch texts, with effects in `m`. -/
structure Transport (m : Type → Type) where
  name : String
  /-- Fetches at once what stands at some locations; one outcome for each, in their order. -/
  fetchAll : List String → m (List Fetched)

namespace Transport

/-- The same transport with its effects in another monad. -/
def lift {m n : Type → Type} (run : {α : Type} → m α → n α) (transport : Transport m) :
    Transport n where
  name := transport.name
  fetchAll locations := run (transport.fetchAll locations)

/-- A transport that takes each location by itself. -/
def each {m : Type → Type} [Monad m] (name : String) (fetch : String → m Fetched) :
    Transport m where
  name := name
  fetchAll locations := locations.mapM fetch

/-- Fetches what stands at one location. -/
def fetch {m : Type → Type} [Monad m] (transport : Transport m) (location : String) :
    m Fetched := do
  match ← transport.fetchAll [location] with
  | outcome :: _ => return outcome
  | [] => return .error (.other "no answer")

end Transport

end LinkedApi
