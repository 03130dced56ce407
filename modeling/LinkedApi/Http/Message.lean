import LinkedApi.Http.Client
import LinkedApi.Text.Trim

/-!
# HTTP messages

A request as it is sent, and a response as it arrives. The response is a status line, header
lines, an empty line and the body, whose length is announced, or which comes in chunks, or which
lasts until the connection is closed.
-/

namespace LinkedApi.Http

/-- A request for a connection that carries nothing else. -/
def requestText (r : HttpRequest) : String :=
  let agent := (r.agent.map fun name => "User-Agent: " ++ name ++ "\r\n").getD ""
  "GET " ++ r.url.target ++ " HTTP/1.1\r\nHost: " ++ r.url.authority ++
    "\r\n" ++ agent ++ "Accept: */*\r\nConnection: close\r\n\r\n"

/-- A line without its end, and the bytes after it. -/
def line : List UInt8 → List UInt8 × List UInt8
  | 13 :: 10 :: rest => ([], rest)
  | 10 :: rest => ([], rest)
  | b :: rest =>
    let (text, after) := line rest
    (b :: text, after)
  | [] => ([], [])

def readable (bytes : List UInt8) : String := String.ofList (Text.decodeLossy bytes)

/-- A header line: the name in lower case, and the value. -/
def header (text : String) : String × String :=
  match Text.splitFirst? ':' text.toList with
  | some (name, value) => (String.ofList (name.map Char.toLower), String.ofList (Text.trim value))
  | none => (text, "")

/-- Header lines up to the empty line, and the bytes after it. -/
def headers (fuel : Nat) (bytes : List UInt8) : List (String × String) × List UInt8 :=
  match fuel with
  | 0 => ([], bytes)
  | fuel + 1 =>
    let (text, rest) := line bytes
    if text.isEmpty then ([], rest)
    else
      let (more, after) := headers fuel rest
      (header (readable text) :: more, after)

/-- The status that the first line gives. -/
def status? (text : String) : Option Nat :=
  match Text.splitAt ' ' text.toList with
  | version :: code :: _ =>
    if "HTTP/1.".toList.isPrefixOf version then Text.numeral? 10 code else none
  | _ => none

/-- The body that chunks make up, and whether the last of them is there. -/
def chunks (fuel : Nat) (bytes : List UInt8) : List UInt8 × Bool :=
  match fuel with
  | 0 => ([], false)
  | fuel + 1 =>
    let (size, rest) := line bytes
    match Text.numeral? 16 ((readable size).toList.takeWhile fun c => c ≠ ';' && c ≠ ' ') with
    | none => ([], false)
    | some 0 => ([], true)
    | some size =>
      if rest.length < size then (rest, false)
      else
        let (more, complete) := chunks fuel (line (rest.drop size)).2
        (rest.take size ++ more, complete)

/-- The body after the headers, and whether it is as long as announced. -/
def body (fields : List (String × String)) (bytes : List UInt8) : List UInt8 × Bool :=
  let value? (name : String) : Option String := (fields.find? (·.1 == name)).map (·.2)
  if value? "transfer-encoding" = some "chunked" then chunks (bytes.length + 1) bytes
  else
    match (value? "content-length").bind fun text => Text.numeral? 10 text.toList with
    | some length => (bytes.take length, length ≤ bytes.length)
    | none => (bytes, true)

/-- The response that the bytes of a closed connection make up. -/
def response? (bytes : ByteArray) : Option HttpResponse := do
  let (first, rest) := line bytes.toList
  let status ← status? (readable first)
  let (fields, rest) := headers rest.length rest
  let (content, complete) := body fields rest
  return {
    status
    location := (fields.find? (·.1 == "location")).map (·.2)
    body := ⟨content.toArray⟩
    complete }

end LinkedApi.Http
