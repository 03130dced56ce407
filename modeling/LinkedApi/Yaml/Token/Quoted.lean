import LinkedApi.Yaml.Folding
import LinkedApi.Text.Digits

/-!
# Quoted scalars

The text between quotes may run over several lines. Blanks around a line break are dropped; a
single line break becomes a space, and of several all but the first are kept.
-/

namespace LinkedApi.Yaml.Quoted

inductive Quote where
  | single
  | double
  deriving DecidableEq

def Quote.char : Quote → Char
  | .single => Char.ofNat 39
  | .double => '"'

/-- The character that one letter after a backslash stands for. -/
def named? : Char → Option Nat
  | '0' => some 0
  | 'a' => some 7
  | 'b' => some 8
  | 't' => some 9
  | '\t' => some 9
  | 'n' => some 10
  | 'v' => some 11
  | 'f' => some 12
  | 'r' => some 13
  | 'e' => some 27
  | ' ' => some 32
  | '"' => some 34
  | '/' => some 47
  | '\\' => some 92
  | 'N' => some 0x85
  | '_' => some 0xA0
  | 'L' => some 0x2028
  | 'P' => some 0x2029
  | _ => none

/-- How many hexadecimal digits follow a letter after a backslash. -/
def numberedWidth? : Char → Option Nat
  | 'x' => some 2
  | 'u' => some 4
  | 'U' => some 8
  | _ => none

/-- The character of an escape, given the text after the backslash, and the number of characters
of the escape after it. -/
private def escape? : List Char → Option (Char × Nat)
  | [] => none
  | c :: rest =>
    match named? c, numberedWidth? c with
    | some n, _ => some (Char.ofNat n, 1)
    | none, some width => do
      let digits := rest.take width
      if digits.length < width then none
      else
        let n ← Text.numeral? 16 digits
        if (0xD800 ≤ n ∧ n ≤ 0xDFFF) ∨ 0x10FFFF < n then none
        else some (Char.ofNat n, width + 1)
    | none, none => none

/-- What a run of text inside a line ends with. -/
private inductive Stop where
  | gap
  | quote
  | escapedBreak

/-- The characters up to a blank, a line break or the closing quote. -/
private def run? (quote : Quote) : Nat → Cursor → Option (List Char × Stop × Cursor)
  | 0, _ => none
  | fuel + 1, c =>
    if atGap c.rest then some ([], .gap, c)
    else
      match quote, c.rest with
      | .single, '\'' :: '\'' :: _ => do
        let (text, stop, c) ← run? quote fuel (c.skip 2)
        return ('\'' :: text, stop, c)
      | .double, '\\' :: rest =>
        if !rest.isEmpty && atLineEnd rest then some ([], .escapedBreak, (c.skip 1).takeBreak.2)
        else do
          let (char, width) ← escape? rest
          let (text, stop, c) ← run? quote fuel (c.skip (width + 1))
          return (char :: text, stop, c)
      | _, char :: _ =>
        if char = quote.char then some ([], .quote, c)
        else do
          let (text, stop, c) ← run? quote fuel (c.skip 1)
          return (char :: text, stop, c)
      | _, [] => none

private def lines? (quote : Quote) : Nat → Cursor → Option (List Char × Cursor)
  | 0, _ => none
  | fuel + 1, c =>
    if c.atDocumentMark || c.rest.isEmpty then none
    else do
      let (text, stop, c) ← run? quote (c.left + 1) c
      let broken := stop matches .escapedBreak
      if c.next? = some quote.char then return (text, c.skip 1)
      let (g, c) ← Gap.extend? 0 { Gap.none with broken } c
      let (rest, c) ← lines? quote fuel c
      return (text ++ g.folded ++ rest, c)

/-- The text of a quoted scalar that begins here, and the place after its closing quote. -/
def scan? (quote : Quote) (c : Cursor) : Option (String × Cursor) :=
  (lines? quote (c.left + 1) (c.skip 1)).map fun (text, c) => (String.ofList text, c)

end LinkedApi.Yaml.Quoted
