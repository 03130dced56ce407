import LinkedApi.Text.Digits

/-!
# String literals of the generated code

A text between single quotes. Control characters and the two Unicode line separators are written
as escapes, so that a literal never ends a line.
-/

namespace LinkedApi.Text

def isControl (c : Char) : Bool :=
  let n := c.toNat
  n < 32 || (0x7F ≤ n && n ≤ 0x9F)

def isLineSeparator (c : Char) : Bool := c.toNat = 0x2028 || c.toNat = 0x2029

/-- How one character stands inside a literal. -/
def escapeInLiteral (c : Char) : List Char :=
  if c = '\\' then ['\\', '\\']
  else if c = '\'' then ['\\', '\'']
  else if c = '\n' then ['\\', 'n']
  else if c = '\r' then ['\\', 'r']
  else if c = '\t' then ['\\', 't']
  else if isLineSeparator c || isControl c then '\\' :: 'u' :: paddedHexadecimal 4 c.toNat
  else [c]

def literal (cs : List Char) : List Char := '\'' :: cs.flatMap escapeInLiteral ++ ['\'']

end LinkedApi.Text
