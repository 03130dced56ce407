/-!
# Places in a YAML text

A cursor holds what is left of a text and where that begins. Carriage return, line feed, next
line, line separator and paragraph separator all end a line; a carriage return and line feed
together end one line.
-/

namespace LinkedApi.Yaml

def isLineBreak (c : Char) : Bool :=
  c = '\n' || c = '\r' || c.toNat = 0x85 || c.toNat = 0x2028 || c.toNat = 0x2029

def isBlank (c : Char) : Bool := c = ' ' || c = '\t'

/-- Letters of names: of anchors, directives and tag handles. -/
def isWordChar (c : Char) : Bool :=
  ('0' ≤ c && c ≤ '9') || ('a' ≤ c && c ≤ 'z') || ('A' ≤ c && c ≤ 'Z') || c = '_' || c = '-'

/-- Characters that a text may hold. -/
def isReadable (c : Char) : Bool :=
  let n := c.toNat
  n = 0x09 || n = 0x0A || n = 0x0D || (0x20 ≤ n && n ≤ 0x7E) || n = 0x85 ||
    (0xA0 ≤ n && n ≤ 0xD7FF) || (0xE000 ≤ n && n ≤ 0xFFFD) || 0x10000 ≤ n

/-- Whether a text is at its end or begins with a blank or a line break. -/
def atGap : List Char → Bool
  | [] => true
  | c :: _ => isBlank c || isLineBreak c

/-- Whether a text is at its end or begins with a line break. -/
def atLineEnd : List Char → Bool
  | [] => true
  | c :: _ => isLineBreak c

/-- Whether a text begins with a mark between documents. -/
def atDocumentMark : List Char → Bool
  | '-' :: '-' :: '-' :: rest => atGap rest
  | '.' :: '.' :: '.' :: rest => atGap rest
  | _ => false

structure Cursor where
  rest : List Char
  /-- Characters from this place on. -/
  left : Nat
  line : Nat
  /-- Characters of this line before this place. -/
  column : Nat

namespace Cursor

def start (text : List Char) : Cursor := ⟨text, text.length, 0, 0⟩

def next? (c : Cursor) : Option Char := c.rest.head?

/-- Moves over characters of the same line. -/
def skip (c : Cursor) (n : Nat) : Cursor :=
  { c with rest := c.rest.drop n, left := c.left - n, column := c.column + n }

/-- The characters of the same line that satisfy a test, and the place after them. -/
def takeWhile (c : Cursor) (test : Char → Bool) : List Char × Cursor :=
  let taken := c.rest.takeWhile test
  (taken, c.skip taken.length)

def skipWhile (c : Cursor) (test : Char → Bool) : Cursor := (c.takeWhile test).2

private def newLine (c : Cursor) (n : Nat) : Cursor :=
  { rest := c.rest.drop n, left := c.left - n, line := c.line + 1, column := 0 }

/-- A line break, as it counts in the text of a scalar, and the place after it. Without a line
break nothing is read. -/
def takeBreak (c : Cursor) : List Char × Cursor :=
  match c.rest with
  | '\r' :: '\n' :: _ => (['\n'], c.newLine 2)
  | b :: _ =>
    if b.toNat = 0x2028 ∨ b.toNat = 0x2029 then ([b], c.newLine 1)
    else if isLineBreak b then (['\n'], c.newLine 1)
    else ([], c)
  | [] => ([], c)

/-- Whether nothing has been read. -/
def atStart (c : Cursor) : Bool := c.line = 0 && c.column = 0

/-- Whether this is the first column of a line that begins with a mark between documents. -/
def atDocumentMark (c : Cursor) : Bool := c.column = 0 && Yaml.atDocumentMark c.rest

end Cursor

end LinkedApi.Yaml
