import LinkedApi.Text.Digits
import LinkedApi.Toml.Basic

/-!
# Writing TOML strings

A string is written between double quotes if that needs no escape; else between single quotes,
or on several lines, if that avoids escapes; else with escapes.
-/

namespace LinkedApi.Toml

/-- The longest run of a character in a text; `run` is the length of the one that has begun. -/
def longestRun (c : Char) (run : Nat) : List Char → Nat
  | [] => run
  | d :: rest => if d = c then longestRun c (run + 1) rest else max run (longestRun c 0 rest)

/-- Whether a text has a character that can only be written by an escape. -/
def needsEscapes (cs : List Char) : Bool :=
  cs.any fun c => (c.toNat < 32 && c ≠ '\t' && c ≠ '\n') || c.toNat = 127

/-- How one character stands between double quotes. -/
private def escapeChar (multiline : Bool) (c : Char) : List Char :=
  if c.toNat = 8 then ['\\', 'b']
  else if c = '\t' then ['\\', 't']
  else if c = '\n' then (if multiline then ['\n'] else ['\\', 'n'])
  else if c.toNat = 12 then ['\\', 'f']
  else if c = '\r' then ['\\', 'r']
  else if c = '\\' then ['\\', '\\']
  else if c.toNat < 32 || c.toNat = 127 then
    ['\\', 'u'] ++ (Text.paddedHexadecimal 4 c.toNat).map Char.toUpper
  else [c]

/-- A text between double quotes; `quotes` more may follow each other without an escape. -/
private def escaped (multiline : Bool) (limit : Nat) (quotes : Nat) : List Char → List Char
  | [] => []
  | '"' :: rest =>
    if quotes = 0 then '\\' :: '"' :: escaped multiline limit limit rest
    else '"' :: escaped multiline limit (quotes - 1) rest
  | c :: rest => escapeChar multiline c ++ escaped multiline limit limit rest

def encodeBasic (cs : List Char) : List Char := ['"'] ++ escaped false 0 0 cs ++ ['"']

def encodeLiteral (cs : List Char) : List Char := ['\''] ++ cs ++ ['\'']

private def lineStart (cs : List Char) : List Char := if cs.contains '\n' then ['\n'] else []

def encodeLines (cs : List Char) : List Char :=
  let quotes := ['"', '"', '"']
  quotes ++ lineStart cs ++ escaped true 2 2 cs ++ quotes

def encodeLiteralLines (cs : List Char) : List Char :=
  let quotes := ['\'', '\'', '\'']
  quotes ++ lineStart cs ++ cs ++ quotes

def encodeString (cs : List Char) : List Char :=
  let escapes := needsEscapes cs
  let backslash := cs.contains '\\'
  let lines := cs.contains '\n'
  let doubles := longestRun '"' 0 cs
  let singles := longestRun '\'' 0 cs
  if !escapes && !backslash && doubles = 0 && !lines then encodeBasic cs
  else if !escapes && singles = 0 && !lines then encodeLiteral cs
  else if !escapes && !backslash && doubles ≤ 2 then encodeLines cs
  else if !escapes && singles ≤ 2 then encodeLiteralLines cs
  else if lines then encodeLines cs
  else encodeBasic cs

end LinkedApi.Toml
