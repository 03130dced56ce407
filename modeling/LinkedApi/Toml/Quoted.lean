import LinkedApi.Text.Digits

/-!
# TOML strings

A string stands between quotes of one kind. Double quotes allow escapes and single quotes do not;
three quotes at each end allow line breaks, and a break right after the opening does not count.
Every reader gives the characters of the string and what follows it.
-/

namespace LinkedApi.Toml

/-- Control characters, which stand nowhere in a text; the tab is not one of them. -/
def isControl (c : Char) : Bool := (c.toNat < 32 && c ≠ '\t') || c.toNat = 127

def isBlank (c : Char) : Bool := c = ' ' || c = '\t'

/-- The character that a number of hexadecimal digits writes. -/
private def scalarValue? (digits : List Char) : Option Char :=
  match Text.numeral? 16 digits with
  | some n => if n < 0xD800 ∨ (0xDFFF < n ∧ n ≤ 0x10FFFF) then some (Char.ofNat n) else none
  | none => none

/-- An escape after its backslash, and what follows it. -/
def escape? : List Char → Option (Char × List Char)
  | 'b' :: rest => some (Char.ofNat 8, rest)
  | 't' :: rest => some ('\t', rest)
  | 'n' :: rest => some ('\n', rest)
  | 'f' :: rest => some (Char.ofNat 12, rest)
  | 'r' :: rest => some ('\r', rest)
  | '"' :: rest => some ('"', rest)
  | '\\' :: rest => some ('\\', rest)
  | 'u' :: a :: b :: c :: d :: rest => (scalarValue? [a, b, c, d]).map (·, rest)
  | 'U' :: a :: b :: c :: d :: e :: f :: g :: h :: rest =>
    (scalarValue? [a, b, c, d, e, f, g, h]).map (·, rest)
  | _ => none

/-- The rest of a string after a double quote. -/
def basic? (fuel : Nat) (cs : List Char) : Option (List Char × List Char) :=
  match fuel with
  | 0 => none
  | fuel + 1 =>
    match cs with
    | [] => none
    | '"' :: rest => some ([], rest)
    | '\\' :: rest => do
      let (c, rest) ← escape? rest
      let (body, rest) ← basic? fuel rest
      return (c :: body, rest)
    | c :: rest => do
      if isControl c then none
      else
        let (body, rest) ← basic? fuel rest
        return (c :: body, rest)

/-- The rest of a string after a single quote. -/
def literal? : List Char → Option (List Char × List Char)
  | [] => none
  | '\'' :: rest => some ([], rest)
  | c :: rest =>
    if isControl c then none
    else (literal? rest).map fun (body, rest) => (c :: body, rest)

/-- A line break at the front of a text, and what follows it. -/
def lineBreak? : List Char → Option (List Char)
  | '\n' :: rest => some rest
  | '\r' :: '\n' :: rest => some rest
  | _ => none

/-- The text without blanks and line breaks at its front. -/
def skipSpace : List Char → List Char
  | '\r' :: '\n' :: rest => skipSpace rest
  | c :: rest => if isBlank c || c = '\n' then skipSpace rest else c :: rest
  | [] => []

/-- What follows a backslash that ends a line, without the space after it. -/
def continuation? (cs : List Char) : Option (List Char) :=
  (lineBreak? (cs.dropWhile isBlank)).map skipSpace

/-- Closing quotes at the front of a text: up to two more that belong to the string, and what
follows. -/
def closing? (quote : Char) (cs : List Char) : Option (List Char × List Char) :=
  let quotes := cs.takeWhile (· = quote)
  if quotes.length < 3 then none
  else
    let inner := min (quotes.length - 3) 2
    some (quotes.take inner, cs.drop (inner + 3))

/-- The rest of a string after three quotes; with double quotes there are escapes. -/
def multiline? (quote : Char) (fuel : Nat) (cs : List Char) :
    Option (List Char × List Char) :=
  match fuel with
  | 0 => none
  | fuel + 1 =>
    match closing? quote cs with
    | some ended => some ended
    | none =>
      match lineBreak? cs with
      | some rest => (multiline? quote fuel rest).map fun (body, rest) => ('\n' :: body, rest)
      | none =>
        match cs with
        | [] => none
        | c :: rest =>
          if c = '\\' ∧ quote = '"' then
            match continuation? rest with
            | some rest => multiline? quote fuel rest
            | none => do
              let (c, rest) ← escape? rest
              let (body, rest) ← multiline? quote fuel rest
              return (c :: body, rest)
          else if isControl c then none
          else (multiline? quote fuel rest).map fun (body, rest) => (c :: body, rest)

/-- A string of one line at the front of a text. -/
def singleLine? : List Char → Option (List Char × List Char)
  | '"' :: rest => basic? (rest.length + 1) rest
  | '\'' :: rest => literal? rest
  | _ => none

/-- A string at the front of a text. -/
def quoted? (cs : List Char) : Option (List Char × List Char) :=
  let opened (quote : Char) (rest : List Char) : Option (List Char × List Char) :=
    multiline? quote (rest.length + 1) ((lineBreak? rest).getD rest)
  match cs with
  | '"' :: '"' :: '"' :: rest => opened '"' rest
  | '\'' :: '\'' :: '\'' :: rest => opened '\'' rest
  | _ => singleLine? cs

end LinkedApi.Toml
