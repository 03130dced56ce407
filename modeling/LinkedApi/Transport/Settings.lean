import LinkedApi.Json.Record

/-!
# Settings of the network transport
-/

namespace LinkedApi

structure TransportSettings where
  /-- Seconds after which a request is given up. -/
  timeout : Option Nat
  /-- The name under which requests are made. -/
  userAgent : Option String
  deriving DecidableEq, Repr

namespace TransportSettings

/-- No timeout and no name of its own. -/
def default : TransportSettings := ⟨none, none⟩

/-- Settings that are not given are left out. -/
def toJson (s : TransportSettings) : Json :=
  .obj ((s.timeout.map fun n => ("timeout_secs", Json.int n)).toList ++
    (s.userAgent.map fun agent => ("user_agent", Json.str agent)).toList)

def ofJson? (j : Json) : Option TransportSettings := do
  match ← j.record? ["timeout_secs", "user_agent"] with
  | [timeout, userAgent] =>
    return {
      timeout := ← Json.optional? Json.word? timeout
      userAgent := ← Json.optional? Json.string? userAgent }
  | _ => none

end TransportSettings

end LinkedApi
