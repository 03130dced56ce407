import LinkedApi.Http.Url
import LinkedApi.Text.Utf8
import LinkedApi.Transport.Basic
import LinkedApi.Transport.Settings

/-!
# Fetching over HTTP

A location is fetched by a request to its host. Redirections are followed, a status that is no
success is an error, and the body is read as UTF-8 text.
-/

namespace LinkedApi

structure HttpRequest where
  url : Url
  /-- The name under which the request is made. -/
  agent : Option String
  /-- Seconds after which the request is given up. -/
  timeout : Option Nat
  deriving DecidableEq, Repr

structure HttpResponse where
  status : Nat
  /-- Where a redirection leads. -/
  location : Option String
  body : ByteArray
  /-- Whether the body arrived as long as announced. -/
  complete : Bool

/-- How requests are sent; a host may give no answer. -/
structure Network (m : Type → Type) where
  exchange : HttpRequest → m (Option HttpResponse)

namespace Network

/-- No host answers. -/
def unreachable {m : Type → Type} [Monad m] : Network m := ⟨fun _ => return none⟩

end Network

namespace Http

/-- How many redirections are followed. -/
def redirectLimit : Nat := 10

def isRedirect (status : Nat) : Bool := [301, 302, 303, 307, 308].contains status

def isSuccess (status : Nat) : Bool := 200 ≤ status && status < 300

def unsent (url : Url) : TransportError :=
  .http s!"error sending request for url ({url.toString})"

/-- Sends a request and follows redirections; `location` is what was asked for first. -/
def follow {m : Type → Type} [Monad m] (network : Network m) (settings : TransportSettings)
    (location : String) : Nat → Url → m Fetched
  | 0, url => return .error (.http s!"error following redirect for url ({url.toString})")
  | left + 1, url => do
    match ← network.exchange ⟨url, settings.userAgent, settings.timeout⟩ with
    | none => return .error (unsent url)
    | some response =>
      match if isRedirect response.status then response.location.bind url.join? else none with
      | some next => follow network settings location left next
      | none =>
        if !isSuccess response.status then
          return .error (.status location response.status)
        else if !response.complete then
          return .error (.http "error decoding response body")
        else return .ok (String.ofList (Text.decodeLossy response.body.toList))

def fetch {m : Type → Type} [Monad m] (network : Network m) (settings : TransportSettings)
    (location : String) : m Fetched :=
  match Url.ofText? location with
  | some url => follow network settings location (redirectLimit + 1) url
  | none => return .error (.http "builder error")

/-- Characters that may stand in a header. -/
def isHeaderChar (c : Char) : Bool := (32 ≤ c.toNat && c.toNat ≠ 127) || c = '\t'

/-- A transport over the network; the name it goes by must fit into a header. -/
def transport {m : Type → Type} [Monad m] (network : Network m) (settings : TransportSettings) :
    Except TransportError (Transport m) :=
  if (settings.userAgent.getD "").toList.all isHeaderChar then
    .ok (.each "http" (fetch network settings))
  else .error (.other "Failed to build HTTP client: builder error")

end Http

end LinkedApi
