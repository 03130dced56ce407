import LinkedApi.Json.Basic
import LinkedApi.Decimal.Shortest
import LinkedApi.Text.Digits

/-!
# Compact JSON text

Values are written without blanks, fields in their order. Only the quote, the backslash and the
control characters below `U+0020` are escaped.
-/

namespace LinkedApi.Json

/-- How one character stands inside a quoted string. -/
def escapeChar (c : Char) : List Char :=
  if c = '"' then ['\\', '"']
  else if c = '\\' then ['\\', '\\']
  else if c = '\n' then ['\\', 'n']
  else if c = '\r' then ['\\', 'r']
  else if c = '\t' then ['\\', 't']
  else if c.toNat = 8 then ['\\', 'b']
  else if c.toNat = 12 then ['\\', 'f']
  else if c.toNat < 32 then '\\' :: 'u' :: Text.paddedHexadecimal 4 c.toNat
  else [c]

def encodeString (s : List Char) : List Char := '"' :: s.flatMap escapeChar ++ ['"']

/-- Which powers of ten are written positionally: from the first up to, not including, the
second. All others are in scientific notation with an explicit sign. -/
def positionalRange : Int × Int := (-5, 16)

def placed (digits : List Char) (point : Int) : List Char :=
  if point ≤ 0 then '0' :: '.' :: List.replicate (-point).toNat '0' ++ digits
  else if (digits.length : Int) ≤ point then
    digits ++ List.replicate (point.toNat - digits.length) '0' ++ ['.', '0']
  else digits.take point.toNat ++ '.' :: digits.drop point.toNat

def scientific (digits : List Char) (exponent : Int) : List Char :=
  let mantissa :=
    match digits with
    | [d] => [d]
    | d :: rest => d :: '.' :: rest
    | [] => []
  mantissa ++ 'e' :: (if exponent < 0 then '-' else '+') :: Text.decimal exponent.natAbs

/-- The fewest digits that read back; at least one digit stands after the point. -/
def encodeFinite (x : Binary64) : List Char :=
  let sign := if x.isNegative then ['-'] else []
  let (m, q) := x.magnitude
  if m = 0 then sign ++ ['0', '.', '0']
  else
    let shortest := Decimal.shortest m q
    let digits := Text.decimal shortest.digits
    let exponent := shortest.exponent + digits.length - 1
    if positionalRange.1 ≤ exponent ∧ exponent < positionalRange.2 then
      sign ++ placed digits (exponent + 1)
    else sign ++ scientific digits exponent

/-- A number that is not finite has no JSON form and is written as `null`. -/
def encodeFloat (x : Binary64) : List Char :=
  if x.isFinite then encodeFinite x else ['n', 'u', 'l', 'l']

mutual

def encode : Json → List Char
  | .null => ['n', 'u', 'l', 'l']
  | .bool true => ['t', 'r', 'u', 'e']
  | .bool false => ['f', 'a', 'l', 's', 'e']
  | .int n => Text.decimalInt n
  | .float x => encodeFloat x
  | .str s => encodeString s.toList
  | .arr items => '[' :: encodeItems items ++ [']']
  | .obj fields => '{' :: encodeFields fields ++ ['}']

/-- The items, separated by commas. -/
def encodeItems : List Json → List Char
  | [] => []
  | [item] => encode item
  | item :: next :: rest => encode item ++ ',' :: encodeItems (next :: rest)

/-- The fields, separated by commas. -/
def encodeFields : List (String × Json) → List Char
  | [] => []
  | [(key, value)] => encodeString key.toList ++ ':' :: encode value
  | (key, value) :: next :: rest =>
    encodeString key.toList ++ ':' :: encode value ++ ',' :: encodeFields (next :: rest)

end

/-- The compact text of a value. -/
def compress (j : Json) : String := String.ofList j.encode

end LinkedApi.Json
