import LinkedApi.Json.Number

/-!
# Reading JSON text

Every reader takes the text left to read and gives the value with what follows it, or nothing
when the text is not JSON. Containers nest at most 127 deep.
-/

namespace LinkedApi.Json

def isBlank (c : Char) : Bool := c = ' ' || c = '\n' || c = '\r' || c = '\t'

def skipBlanks (cs : List Char) : List Char := cs.dropWhile isBlank

/-- The number written by four hexadecimal digits. -/
def codeUnit? (a b c d : Char) : Option Nat := Text.numeral? 16 [a, b, c, d]

def isHighSurrogate (n : Nat) : Bool := 0xD800 ≤ n && n < 0xDC00
def isLowSurrogate (n : Nat) : Bool := 0xDC00 ≤ n && n < 0xE000

def joinSurrogates (high low : Nat) : Char :=
  Char.ofNat (0x10000 + (high - 0xD800) * 0x400 + (low - 0xDC00))

/-- The character a one-letter escape stands for. -/
def unescape? : Char → Option Char
  | '"' => some '"'
  | '\\' => some '\\'
  | '/' => some '/'
  | 'b' => some (Char.ofNat 8)
  | 'f' => some (Char.ofNat 12)
  | 'n' => some '\n'
  | 'r' => some '\r'
  | 't' => some '\t'
  | _ => none

/-- The rest of a string after its opening quote: its characters, and what follows the closing
quote. A surrogate must be half of a pair, and control characters must be escaped. -/
def stringBody? : List Char → Option (List Char × List Char)
  | [] => none
  | '"' :: rest => some ([], rest)
  | '\\' :: 'u' :: a :: b :: c :: d :: rest => do
    let unit ← codeUnit? a b c d
    if isLowSurrogate unit then none
    else if isHighSurrogate unit then
      match rest with
      | '\\' :: 'u' :: e :: f :: g :: h :: rest => do
        let low ← codeUnit? e f g h
        if isLowSurrogate low then
          let (body, rest) ← stringBody? rest
          return (joinSurrogates unit low :: body, rest)
        else none
      | _ => none
    else
      let (body, rest) ← stringBody? rest
      return (Char.ofNat unit :: body, rest)
  | '\\' :: c :: rest => do
    let c ← unescape? c
    let (body, rest) ← stringBody? rest
    return (c :: body, rest)
  | c :: rest => do
    if c.toNat < 32 ∨ c = '\\' then none
    else
      let (body, rest) ← stringBody? rest
      return (c :: body, rest)

def literal? (word : List Char) (value : Json) (cs : List Char) :
    Option (Json × List Char) :=
  if word.isPrefixOf cs then some (value, cs.drop word.length) else none

/-- Levels of nesting a text may have, plus one. -/
def depthLimit : Nat := 128

mutual

/-- A value at the front of a text. `fuel` bounds the characters to read, `depth` the levels of
nesting left, plus one. -/
def value? (fuel depth : Nat) (cs : List Char) : Option (Json × List Char) :=
  match fuel with
  | 0 => none
  | fuel + 1 =>
    match skipBlanks cs with
    | [] => none
    | '"' :: rest => do
      let (body, rest) ← stringBody? rest
      return (.str (String.ofList body), rest)
    | '[' :: rest =>
      if depth ≤ 1 then none
      else
        match skipBlanks rest with
        | ']' :: rest => some (.arr [], rest)
        | _ => (items? fuel (depth - 1) rest).map fun (items, rest) => (.arr items, rest)
    | '{' :: rest =>
      if depth ≤ 1 then none
      else
        match skipBlanks rest with
        | '}' :: rest => some (.obj [], rest)
        | _ => (fields? fuel (depth - 1) rest).map fun (fields, rest) => (.obj fields, rest)
    | 'n' :: rest => literal? ['u', 'l', 'l'] .null rest
    | 't' :: rest => literal? ['r', 'u', 'e'] (.bool true) rest
    | 'f' :: rest => literal? ['a', 'l', 's', 'e'] (.bool false) rest
    | c :: rest => do
      let (numeral, rest) ← Numeral.parse? (c :: rest)
      let value ← numeral.value?
      return (value, rest)

/-- The items of an array that has at least one, up to its closing bracket. -/
def items? (fuel depth : Nat) (cs : List Char) : Option (List Json × List Char) :=
  match fuel with
  | 0 => none
  | fuel + 1 =>
    match value? fuel depth cs with
    | none => none
    | some (item, rest) =>
      match skipBlanks rest with
      | ',' :: rest => (items? fuel depth rest).map fun (items, rest) => (item :: items, rest)
      | ']' :: rest => some ([item], rest)
      | _ => none

/-- The fields of an object that has at least one, up to its closing brace. -/
def fields? (fuel depth : Nat) (cs : List Char) : Option (List (String × Json) × List Char) :=
  match fuel with
  | 0 => none
  | fuel + 1 =>
    match skipBlanks cs with
    | '"' :: rest =>
      match stringBody? rest with
      | none => none
      | some (key, rest) =>
        match skipBlanks rest with
        | ':' :: rest =>
          match value? fuel depth rest with
          | none => none
          | some (value, rest) =>
            let field := (String.ofList key, value)
            match skipBlanks rest with
            | ',' :: rest =>
              (fields? fuel depth rest).map fun (fields, rest) => (field :: fields, rest)
            | '}' :: rest => some ([field], rest)
            | _ => none
        | _ => none
    | _ => none

end

/-- What a whole text spells out, with every field as written, repeated keys too. -/
def written? (text : String) : Option Json :=
  let cs := text.toList
  match value? (2 * cs.length + 2) depthLimit cs with
  | some (value, rest) => if (skipBlanks rest).isEmpty then some value else none
  | none => none

/-- The value of a whole text. -/
def parse? (text : String) : Option Json := (written? text).map normal

end LinkedApi.Json
