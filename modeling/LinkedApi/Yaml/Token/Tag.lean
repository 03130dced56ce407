import LinkedApi.Yaml.Cursor
import LinkedApi.Yaml.Token
import LinkedApi.Text.Digits

/-!
# Tags and directives

A tag is a handle with a suffix, as in `!!str` or `!name`, or stands between angle brackets. A
directive gives the version of the format or declares what a handle stands for.
-/

namespace LinkedApi.Yaml.Tag

/-- Characters of a tag's suffix; between angle brackets three more are allowed. -/
def isSuffixChar (bracketed : Bool) (c : Char) : Bool :=
  isWordChar c || ";/?:@&=+$.%!~*'()".contains c || (bracketed && c ∈ [',', '[', ']'])

/-- The bytes that percent escapes stand for; any other character stands for its own. -/
private def bytes? : List Char → Option (List UInt8)
  | [] => some []
  | '%' :: a :: b :: rest => do
    let n ← Text.numeral? 16 [a, b]
    let rest ← bytes? rest
    return UInt8.ofNat n :: rest
  | '%' :: _ => none
  | c :: rest => do
    let rest ← bytes? rest
    return UInt8.ofNat c.toNat :: rest

private def decode? (cs : List Char) : Option String := do
  let bytes ← bytes? cs
  String.fromUTF8? ⟨bytes.toArray⟩

/-- A suffix and the place after it. -/
private def suffix? (bracketed : Bool) (c : Cursor) : Option (String × Cursor) := do
  let (text, c) := c.takeWhile (isSuffixChar bracketed)
  return (← decode? text, c)

/-- What stands after an exclamation mark up to the next, if only word characters do. -/
private def handle? (c : Cursor) : Option (String × Cursor) :=
  let (word, c) := (c.skip 1).takeWhile isWordChar
  if c.next? = some '!' then some (String.ofList ('!' :: word ++ ['!']), c.skip 1) else none

private def bracketed? (c : Cursor) : Option (TagName × Cursor) := do
  let (suffix, c) ← suffix? true (c.skip 2)
  if suffix.isEmpty || c.next? ≠ some '>' then none
  else return (⟨"", suffix⟩, c.skip 1)

private def shorthand? (c : Cursor) : Option (TagName × Cursor) := do
  match handle? c with
  | some (handle, c) =>
    let (suffix, c) ← suffix? false c
    if suffix.isEmpty then none else return (⟨handle, suffix⟩, c)
  | none =>
    let (suffix, c) ← suffix? false (c.skip 1)
    return (if suffix.isEmpty then ⟨"", "!"⟩ else ⟨"!", suffix⟩, c)

/-- A tag that begins here; a gap, or inside brackets a comma, must follow it. -/
def scan? (inFlow : Bool) (c : Cursor) : Option (TagName × Cursor) := do
  let (name, c) ← if c.rest[1]? = some '<' then bracketed? c else shorthand? c
  if atGap c.rest || (inFlow && c.next? == some ',') then return (name, c) else none

/-- The end of a directive's line, which may hold a comment. -/
private def lineEnd? (c : Cursor) : Option Cursor :=
  let c := c.skipWhile isBlank
  let c := if c.next? = some '#' then c.skipWhile (!isLineBreak ·) else c
  if atLineEnd c.rest then some c.takeBreak.2 else none

/-- Part of a version number, of at most nine digits. -/
private def versionPart? (c : Cursor) : Option (Nat × Cursor) := do
  let (digits, c) := c.takeWhile Text.isDigit
  if digits.length > 9 then none else return (← Text.numeral? 10 digits, c)

private def version? (c : Cursor) : Option (Token × Cursor) := do
  let (major, c) ← versionPart? c
  if c.next? ≠ some '.' then none
  else
    let (minor, c) ← versionPart? (c.skip 1)
    return (.version major minor, ← lineEnd? c)

private def declaration? (c : Cursor) : Option (Token × Cursor) := do
  if c.next? ≠ some '!' then none
  else
    let (handle, c) :=
      match handle? c with
      | some (handle, c) => (handle, c)
      | none => ("!", c.skip 1)
    if !c.next?.any isBlank then none
    else
      let (expansion, c) ← suffix? true (c.skipWhile isBlank)
      if expansion.isEmpty || !atGap c.rest then none
      else return (.tagShorthand handle expansion, ← lineEnd? c)

/-- A directive that begins here with a percent sign. -/
def directive? (c : Cursor) : Option (Token × Cursor) :=
  let (name, c) := (c.skip 1).takeWhile isWordChar
  if !atGap c.rest then none
  else if name = "YAML".toList then version? (c.skipWhile isBlank)
  else if name = "TAG".toList then declaration? (c.skipWhile isBlank)
  else none

end LinkedApi.Yaml.Tag
