import LinkedApi.Json.Printer
import LinkedApi.Text.Identifier
import LinkedApi.Text.Literal

/-!
# Templates of the generated code

A template is text with markers. A marker is a number between double braces, the position of the
slot that takes its place; double braces around anything else are text. How a slot is written
depends on its kind, so that a value is escaped in one place only.
-/

namespace LinkedApi

/-- A value to be put into a template. -/
inductive Slot where
  /-- Text, written as a string literal. -/
  | str (text : String)
  /-- A name, written as it is if it is an identifier. -/
  | ident (name : String)
  /-- A value, written as compact JSON. -/
  | json (value : Json)
  /-- Code, written as it is. -/
  | raw (code : String)
  deriving Repr

inductive TemplateError where
  /-- A marker has no slot among those provided. -/
  | missingArgument (index provided : Nat)
  | invalidIdentifier (name : String)
  deriving DecidableEq, Repr

def TemplateError.message : TemplateError → String
  | .missingArgument index provided =>
    s!"template marker \x7b\x7b{index}\x7d\x7d has no argument ({provided} provided)"
  | .invalidIdentifier name => s!"'{name}' is not a valid identifier"

def Slot.write : Slot → Except TemplateError (List Char)
  | .str text => .ok (Text.literal text.toList)
  | .ident name =>
    if Text.isIdentifier name then .ok name.toList else .error (.invalidIdentifier name)
  | .json value => .ok value.compress.toList
  | .raw code => .ok code.toList

namespace Template

/-- What a template is made of; text is never empty. -/
inductive Piece where
  | text (chars : List Char)
  | marker (index : Nat)
  deriving DecidableEq, Repr

/-- The number that is closed by double braces, and what follows them. Numbers have at most 64
bits. -/
def closedNumber? (cs : List Char) : Option (Nat × List Char) :=
  match cs.dropWhile Text.isDigit with
  | '}' :: '}' :: rest =>
    match Text.numeral? 10 (cs.takeWhile Text.isDigit) with
    | some index => if index < twoTo 64 then some (index, rest) else none
    | none => none
  | _ => none

theorem length_dropWhile_le {α : Type} (p : α → Bool) (xs : List α) :
    (xs.dropWhile p).length ≤ xs.length :=
  (List.dropWhile_sublist p).length_le

theorem length_of_closedNumber? {cs rest : List Char} {index : Nat}
    (h : closedNumber? cs = some (index, rest)) : rest.length < cs.length := by
  unfold closedNumber? at h
  split at h
  next tail heq =>
    have hle := length_dropWhile_le Text.isDigit cs
    rw [heq] at hle
    split at h
    · split at h
      · simp only [Option.some.injEq, Prod.mk.injEq] at h
        rw [← h.2]
        simp only [List.length_cons] at hle
        omega
      · cases h
    · cases h
  · cases h

/-- A piece of text, unless it is empty. -/
def textPiece (chars : List Char) : List Piece := if chars.isEmpty then [] else [.text chars]

/-- The pieces of a template; `before` holds, in reverse, the text since the last marker. -/
def split (before : List Char) (cs : List Char) : List Piece :=
  match cs with
  | [] => textPiece before.reverse
  | '{' :: '{' :: rest =>
    match _h : closedNumber? rest with
    | some (index, after) => textPiece before.reverse ++ .marker index :: split [] after
    | none => split ('{' :: '{' :: before) rest
  | c :: rest => split (c :: before) rest
termination_by cs.length
decreasing_by
  · have := length_of_closedNumber? _h
    simp only [List.length_cons]
    omega
  · simp only [List.length_cons]
    omega
  · simp only [List.length_cons]
    omega

end Template

structure Template where
  pieces : List Template.Piece
  deriving DecidableEq, Repr

namespace Template

def ofText (source : String) : Template := ⟨split [] source.toList⟩

/-- How many slots a marker needs. The count has 64 bits like the numbers of markers, and there is
none for the largest of these. -/
def slotsFor? (index : Nat) : Option Nat :=
  if index + 1 < twoTo 64 then some (index + 1) else none

/-- How many slots the markers of some pieces need, if each of them can be counted. -/
def arityOf? : List Piece → Option Nat
  | [] => some 0
  | .text _ :: rest => arityOf? rest
  | .marker index :: rest => do return max (← slotsFor? index) (← arityOf? rest)

/-- How many slots a template needs. A template has no count when one of its markers has none. -/
def arity? (t : Template) : Option Nat := arityOf? t.pieces

/-- Writes pieces one after the other; the first marker that cannot be replaced is reported. -/
def fill (slots : List Slot) : List Piece → Except TemplateError (List Char)
  | [] => .ok []
  | .text chars :: rest => do return chars ++ (← fill slots rest)
  | .marker index :: rest => do
    let slot ←
      match slots[index]? with
      | some slot => pure slot
      | none => throw (.missingArgument index slots.length)
    let written ← slot.write
    return written ++ (← fill slots rest)

def render (t : Template) (slots : List Slot) : Except TemplateError String :=
  (fill slots t.pieces).map String.ofList

end Template

end LinkedApi
