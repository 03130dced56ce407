import LinkedApi.Yaml.Cursor
import LinkedApi.Text.Digits

/-!
# Block scalars

The text after `|` keeps its line breaks; after `>` it is folded. Its indentation is that of the
first line that is not empty, unless the header names it, and the header also says what becomes
of the line breaks at the end.
-/

namespace LinkedApi.Yaml.Block

inductive Chomping where
  | strip
  | clip
  | keep
  deriving DecidableEq

structure Header where
  chomping : Chomping
  /-- Columns of indentation beyond the enclosing block, when they are named. -/
  increment : Option Nat

private def chomping? : Option Char → Option Chomping
  | some '+' => some .keep
  | some '-' => some .strip
  | _ => none

private def increment? (c : Option Char) : Option Nat :=
  (c.filter Text.isDigit).map fun d => d.toNat - 48

/-- The header after its first character, with the place where it ends. -/
private def header? (c : Cursor) : Option (Header × Cursor) :=
  let parts :=
    match chomping? c.next?, increment? c.next? with
    | some chomping, _ =>
      let c := c.skip 1
      match increment? c.next? with
      | some n => (chomping, some n, c.skip 1)
      | none => (chomping, none, c)
    | none, some n =>
      let c := c.skip 1
      match chomping? c.next? with
      | some chomping => (chomping, some n, c.skip 1)
      | none => (.clip, some n, c)
    | none, none => (.clip, none, c)
  let (chomping, increment, c) := parts
  if increment = some 0 then none
  else
    let c := c.skipWhile isBlank
    let c := if c.next? = some '#' then c.skipWhile (!isLineBreak ·) else c
    if atLineEnd c.rest then some (⟨chomping, increment⟩, c.takeBreak.2) else none

/-- Empty lines before a line of text: the line breaks, the widest indentation seen, and the
place where the text begins. An indentation of `none` is still to be found. -/
private def emptyLines? (indent : Option Nat) :
    Nat → Nat → Cursor → Option (List Char × Nat × Cursor)
  | 0, _, _ => none
  | fuel + 1, widest, c =>
    let spaces := (c.rest.takeWhile (· = ' ')).length
    let spaces :=
      match indent with
      | some n => min spaces (n - c.column)
      | none => spaces
    let c := c.skip spaces
    let widest := max widest c.column
    let indenting := indent.all (c.column < ·)
    if indenting && c.next? == some '\t' then none
    else if c.rest.isEmpty || !atLineEnd c.rest then some ([], widest, c)
    else do
      let (lineBreak, c) := c.takeBreak
      let (breaks, widest, c) ← emptyLines? indent fuel widest c
      return (lineBreak ++ breaks, widest, c)

/-- What came before a line of text. -/
private structure Pending where
  lineBreak : List Char
  emptyLines : List Char
  /-- Whether the line before begins with a blank; such lines are never folded. -/
  afterBlank : Bool

private def Pending.join (literal : Bool) (p : Pending) (startsBlank : Bool) : List Char :=
  if !literal && p.lineBreak = ['\n'] && !p.afterBlank && !startsBlank then
    if p.emptyLines.isEmpty then [' '] else p.emptyLines
  else p.lineBreak ++ p.emptyLines

private def lines? (literal : Bool) (indent : Nat) : Nat → Pending → Cursor →
    Option (List Char × Pending × Cursor)
  | 0, _, _ => none
  | fuel + 1, pending, c =>
    if c.column ≠ indent ∨ c.rest.isEmpty then some ([], pending, c)
    else do
      let startsBlank := c.next?.any isBlank
      let joined := pending.join literal startsBlank
      let (text, c) := c.takeWhile (!isLineBreak ·)
      let (lineBreak, c) := c.takeBreak
      let (emptyLines, _, c) ← emptyLines? (some indent) (c.left + 1) 0 c
      let (rest, pending, c) ← lines? literal indent fuel ⟨lineBreak, emptyLines, startsBlank⟩ c
      return (joined ++ text ++ rest, pending, c)

/-- The text of a block scalar that begins here, inside a block of the given indentation (`-1`
at the top level), and the place after it. -/
def scan? (literal : Bool) (parent : Int) (c : Cursor) : Option (String × Cursor) := do
  let (header, c) ← header? (c.skip 1)
  let named := header.increment.map fun n => (max parent 0).toNat + n
  let (emptyLines, widest, c) ← emptyLines? named (c.left + 1) 0 c
  let indent := named.getD (max widest (max (parent + 1) 1).toNat)
  let (text, pending, c) ← lines? literal indent (c.left + 1) ⟨[], emptyLines, false⟩ c
  let tail :=
    match header.chomping with
    | .strip => []
    | .clip => pending.lineBreak
    | .keep => pending.lineBreak ++ pending.emptyLines
  return (String.ofList (text ++ tail), c)

end LinkedApi.Yaml.Block
