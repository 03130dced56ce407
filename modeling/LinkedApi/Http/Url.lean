import LinkedApi.Text.Digits
import LinkedApi.Text.Split

/-!
# URLs of the web

A URL is read as the web reads it: blanks around it, letter case in scheme and host, dot segments
and the usual port do not count, and characters that may not stand in a part are written by their
bytes. A name and password before the host do not belong to what is asked for.
-/

namespace LinkedApi

structure Url where
  secure : Bool
  host : String
  /-- The port, unless it is the usual one. -/
  port : Option Nat
  /-- The segments of the path. -/
  path : List String
  query : Option String
  fragment : Option String
  deriving DecidableEq, Repr

namespace Url

def scheme (u : Url) : String := if u.secure then "https" else "http"

def usualPort (secure : Bool) : Nat := if secure then 443 else 80

/-- The host as a request names it. -/
def authority (u : Url) : String :=
  u.host ++ (u.port.map fun port => s!":{port}").getD ""

/-- What is asked of the host. -/
def target (u : Url) : String :=
  "/" ++ "/".intercalate u.path ++ (u.query.map ("?" ++ ·)).getD ""

def toString (u : Url) : String :=
  u.scheme ++ "://" ++ u.authority ++ u.target ++ (u.fragment.map ("#" ++ ·)).getD ""

/-! ## Characters -/

private def percentByte (b : UInt8) : List Char :=
  ['%'] ++ (Text.paddedHexadecimal 2 b.toNat).map Char.toUpper

/-- Writes a text with the characters that may not stand in it given by their bytes. -/
def encode (forbidden : List Char) (cs : List Char) : List Char :=
  cs.flatMap fun c =>
    if c.toNat ≤ 32 || 127 ≤ c.toNat || forbidden.contains c then
      c.toString.toUTF8.toList.flatMap percentByte
    else [c]

def pathForbidden : List Char := ['"', '#', '<', '>', '?', '`', '{', '}']
def queryForbidden : List Char := ['"', '#', '<', '>', '\'']
def fragmentForbidden : List Char := ['"', '<', '>', '`']

/-- Characters that no host has. -/
def hostForbidden : List Char :=
  ['"', '#', '/', '<', '>', '?', '@', '\\', '^', '`', '{', '|', '}', '%', ':']

private def isHostChar (c : Char) : Bool :=
  32 < c.toNat && c.toNat < 127 && !hostForbidden.contains c

/-! ## Reading -/

private def isSlash (c : Char) : Bool := c = '/' || c = '\\'

private def isDot (segment : List Char) : Bool :=
  [['.'], ['%', '2', 'e']].contains (segment.map Char.toLower)

private def isDoubleDot (segment : List Char) : Bool :=
  [['.', '.'], ['.', '%', '2', 'e'], ['%', '2', 'e', '.'], ['%', '2', 'e', '%', '2', 'e']].contains
    (segment.map Char.toLower)

/-- Takes the dot segments of a path; `taken` holds the segments before, in reverse. -/
private def takeDots (taken : List (List Char)) : List (List Char) → List (List Char)
  | [] => taken.reverse
  | segment :: rest =>
    let taken := if isDoubleDot segment then taken.drop 1 else taken
    if isDot segment || isDoubleDot segment then
      if rest.isEmpty then ([] :: taken).reverse else takeDots taken rest
    else takeDots (segment :: taken) rest

private def segmentsOf (path : List Char) : List (List Char) :=
  Text.splitAt '/' (path.map fun c => if isSlash c then '/' else c)

/-- A text before and after the first character of a kind; without one there is nothing after. -/
private def cut (separator : Char) (cs : List Char) : List Char × Option (List Char) :=
  match Text.splitFirst? separator cs with
  | some (before, after) => (before, some after)
  | none => (cs, none)

private def portOf? (secure : Bool) : Option (List Char) → Option (Option Nat)
  | none => some none
  | some [] => some none
  | some digits =>
    match Text.numeral? 10 digits with
    | some port =>
      if port < 65536 then some (if port = usualPort secure then none else some port) else none
    | none => none

/-- A host with its port. -/
private def hostOf? (secure : Bool) (cs : List Char) : Option (String × Option Nat) := do
  let withoutUser := (cs.reverse.takeWhile (· ≠ '@')).reverse
  let (host, port) :=
    match withoutUser with
    | '[' :: rest =>
      match Text.splitFirst? ']' rest with
      | some (inner, ':' :: port) => ('[' :: inner ++ [']'], some port)
      | some (inner, _) => ('[' :: inner ++ [']'], none)
      | none => ([], none)
    | _ => cut ':' withoutUser
  let inner := host.filter fun c => c ≠ '[' && c ≠ ']' && c ≠ ':'
  if host.isEmpty || !inner.all isHostChar then none
  else return (String.ofList (host.map Char.toLower), ← portOf? secure port)

private def readTail (secure : Bool) (host : String) (port : Option Nat)
    (before : List (List Char)) (path : List Char) (query fragment : Option (List Char)) : Url where
  secure := secure
  host := host
  port := port
  path := (takeDots before.reverse (segmentsOf path)).map fun segment =>
    String.ofList (encode pathForbidden segment)
  query := query.map fun q => String.ofList (encode queryForbidden q)
  fragment := fragment.map fun f => String.ofList (encode fragmentForbidden f)

/-- Blanks at the ends and breaks anywhere do not count. -/
private def cleaned (text : String) : List Char :=
  let isBlank (c : Char) : Bool := c.toNat ≤ 32
  let inner := ((text.toList.dropWhile isBlank).reverse.dropWhile isBlank).reverse
  inner.filter fun c => c ≠ '\t' && c ≠ '\n' && c ≠ '\r'

/-- A text without its scheme, if the scheme is one of the web. -/
private def scheme? (cs : List Char) : Option (Bool × List Char) :=
  match Text.splitFirst? ':' cs with
  | some (name, rest) =>
    let name := String.ofList (name.map Char.toLower)
    if name = "http" then some (false, rest)
    else if name = "https" then some (true, rest)
    else none
  | none => none

def ofText? (text : String) : Option Url := do
  let (secure, rest) ← scheme? (cleaned text)
  let (rest, fragment) := cut '#' rest
  let (rest, query) := cut '?' rest
  let rest := rest.dropWhile isSlash
  let host := rest.takeWhile fun c => !isSlash c
  let path := (rest.drop host.length).drop 1
  let (host, port) ← hostOf? secure host
  return readTail secure host port [] path query fragment

/-- A URL as seen from another. -/
def join? (base : Url) (text : String) : Option Url :=
  match ofText? text with
  | some url => some url
  | none =>
    let cs := cleaned text
    let (cs, fragment) := cut '#' cs
    let (cs, query) := cut '?' cs
    match cs with
    | '/' :: '/' :: _ => ofText? (base.scheme ++ ":" ++ text)
    | [] => some { base with
        query := (query.map fun q => String.ofList (encode queryForbidden q)).or base.query
        fragment := fragment.map fun f => String.ofList (encode fragmentForbidden f) }
    | '/' :: path => some (readTail base.secure base.host base.port [] path query fragment)
    | path =>
      if path.contains ':' && (scheme? path).isSome then none
      else
        let before := base.path.dropLast.map String.toList
        some (readTail base.secure base.host base.port before path query fragment)

end Url

end LinkedApi
