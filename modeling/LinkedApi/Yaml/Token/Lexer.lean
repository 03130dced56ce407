import LinkedApi.Yaml.Token
import LinkedApi.Yaml.Token.Bare
import LinkedApi.Yaml.Token.Block
import LinkedApi.Yaml.Token.Quoted
import LinkedApi.Yaml.Token.Tag

/-!
# From text to tokens

A key without a question mark is recognised only at the colon after it. So each level of brackets
remembers where a key may have begun; at the colon the tokens that open the key are put in there.
Such a key stands on one line and has at most 1024 characters.
-/

namespace LinkedApi.Yaml

/-- A place where a key may have begun. -/
structure PossibleKey where
  /-- Whether something else than a key would be an error there. -/
  required : Bool
  /-- Tokens before that place. -/
  position : Nat
  place : Cursor

structure Lexer where
  cursor : Cursor
  tokens : Array Token
  /-- The column of the innermost block, `-1` outside of all. -/
  indent : Int
  outerIndents : List Int
  /-- Whether a key may begin at this place. -/
  keyAllowed : Bool
  /-- The possible key of each level of brackets, the innermost first. -/
  keys : List (Option PossibleKey)

namespace Lexer

def start (text : List Char) : Lexer :=
  { cursor := .start text
    tokens := #[]
    indent := -1
    outerIndents := []
    keyAllowed := true
    keys := [none] }

/-- Whether this place is inside brackets. -/
def inFlow (l : Lexer) : Bool := 1 < l.keys.length

def column (l : Lexer) : Int := l.cursor.column

private def emit (l : Lexer) (t : Token) : Lexer := { l with tokens := l.tokens.push t }

/-- Emits a token written with `n` characters. -/
private def emitSkip (l : Lexer) (t : Token) (n : Nat) : Lexer :=
  { l.emit t with cursor := l.cursor.skip n }

private def insert (l : Lexer) (position : Nat) (t : Token) : Lexer :=
  { l with tokens := l.tokens.insertIdxIfInBounds position t }

/-- Opens a block at a column, if that is further in; its token goes before the token numbered
`position`. -/
private def openBlock (l : Lexer) (column : Int) (position : Nat) (t : Token) : Lexer :=
  if !l.inFlow && l.indent < column then
    { l.insert position t with indent := column, outerIndents := l.indent :: l.outerIndents }
  else l

private def closeBlocksFrom (column : Int) : List Int → Int → Array Token →
    Int × List Int × Array Token
  | outer :: rest, indent, tokens =>
    if column < indent then closeBlocksFrom column rest outer (tokens.push .blockEnd)
    else (indent, outer :: rest, tokens)
  | [], indent, tokens => (indent, [], tokens)

/-- Closes the blocks that are further in than a column. -/
private def closeBlocks (l : Lexer) (column : Int) : Lexer :=
  if l.inFlow then l
  else
    let (indent, outerIndents, tokens) := closeBlocksFrom column l.outerIndents l.indent l.tokens
    { l with indent, outerIndents, tokens }

/-- Forgets the possible key of this level; a required one must not be forgotten. -/
private def dropKey? (l : Lexer) : Option Lexer :=
  match l.keys with
  | some key :: rest => if key.required then none else some { l with keys := none :: rest }
  | _ => some l

/-- Remembers that a key may begin here. -/
private def saveKey? (l : Lexer) : Option Lexer :=
  if !l.keyAllowed then some l
  else do
    let l ← l.dropKey?
    let key : PossibleKey :=
      { required := !l.inFlow && l.indent == l.column
        position := l.tokens.size
        place := l.cursor }
    return { l with keys := some key :: l.keys.drop 1 }

private def keyIsStale (c : Cursor) (key : PossibleKey) : Bool :=
  key.place.line < c.line || c.left + 1024 < key.place.left

/-- Forgets the possible keys that are too far back. -/
private def dropStaleKeys? (l : Lexer) : Option Lexer :=
  let stale := keyIsStale l.cursor
  if l.keys.any (·.any fun key => stale key && key.required) then none
  else some { l with keys := l.keys.map (·.filter (!stale ·)) }

/-- Moves over blanks, comments and line breaks. A tab counts as a blank only where no key may
begin. -/
private def skipGaps : Nat → Lexer → Lexer
  | 0, l => l
  | fuel + 1, l =>
    let c := l.cursor
    let c := if c.atStart ∧ c.next? = some '\uFEFF' then c.skip 1 else c
    let c := c.skipWhile fun x => x = ' ' || ((l.inFlow || !l.keyAllowed) && x = '\t')
    let c := if c.next? = some '#' then c.skipWhile (!isLineBreak ·) else c
    if c.rest.isEmpty || !atLineEnd c.rest then { l with cursor := c }
    else
      skipGaps fuel { l with cursor := c.takeBreak.2, keyAllowed := l.keyAllowed || !l.inFlow }

private def openFlow? (l : Lexer) (t : Token) : Option Lexer := do
  let l ← l.saveKey?
  return { l.emitSkip t 1 with keys := none :: l.keys, keyAllowed := true }

private def closeFlow? (l : Lexer) (t : Token) : Option Lexer := do
  let l ← l.dropKey?
  let keys := if l.inFlow then l.keys.drop 1 else l.keys
  return { l.emitSkip t 1 with keys, keyAllowed := false }

private def flowEntry? (l : Lexer) : Option Lexer := do
  let l ← l.dropKey?
  return { l.emitSkip .flowEntry 1 with keyAllowed := true }

private def blockEntry? (l : Lexer) : Option Lexer := do
  if !l.inFlow && !l.keyAllowed then none
  else
    let l ← (l.openBlock l.column l.tokens.size .blockSequenceStart).dropKey?
    return { l.emitSkip .blockEntry 1 with keyAllowed := true }

private def explicitKey? (l : Lexer) : Option Lexer := do
  if !l.inFlow && !l.keyAllowed then none
  else
    let l ← (l.openBlock l.column l.tokens.size .blockMappingStart).dropKey?
    return { l.emitSkip .key 1 with keyAllowed := !l.inFlow }

private def value? (l : Lexer) : Option Lexer :=
  match l.keys with
  | some key :: rest =>
    let l := (l.insert key.position .key).openBlock key.place.column key.position .blockMappingStart
    some { l.emitSkip .value 1 with keys := none :: rest, keyAllowed := false }
  | _ =>
    if !l.inFlow && !l.keyAllowed then none
    else
      let l := l.openBlock l.column l.tokens.size .blockMappingStart
      some { l.emitSkip .value 1 with keyAllowed := !l.inFlow }

/-- The name of an anchor or alias. -/
private def name? (c : Cursor) : Option (String × Cursor) :=
  let (name, c) := (c.skip 1).takeWhile isWordChar
  let ended := atGap c.rest || c.next?.any ("?:,]\x7d%@".contains ·) || c.next? == some (Char.ofNat 96)
  if name.isEmpty || !ended then none else some (String.ofList name, c)

private def anchor? (l : Lexer) (token : String → Token) : Option Lexer := do
  let l ← l.saveKey?
  let (name, cursor) ← name? l.cursor
  return { l.emit (token name) with cursor, keyAllowed := false }

private def tag? (l : Lexer) : Option Lexer := do
  let l ← l.saveKey?
  let (name, cursor) ← Tag.scan? l.inFlow l.cursor
  return { l.emit (.tag name) with cursor, keyAllowed := false }

private def blockScalar? (l : Lexer) (literal : Bool) : Option Lexer := do
  let l ← l.dropKey?
  let (text, cursor) ← Block.scan? literal l.indent l.cursor
  return { l.emit (.scalar text .verbatim) with cursor, keyAllowed := true }

private def quotedScalar? (l : Lexer) (quote : Quoted.Quote) : Option Lexer := do
  let l ← l.saveKey?
  let (text, cursor) ← Quoted.scan? quote l.cursor
  return { l.emit (.scalar text .verbatim) with cursor, keyAllowed := false }

private def plainScalar? (l : Lexer) : Option Lexer := do
  let l ← l.saveKey?
  let (text, onLaterLine, cursor) ← Bare.scan? l.inFlow l.indent l.cursor
  return { l.emit (.scalar text .plain) with cursor, keyAllowed := onLaterLine }

/-- Marks between documents and directives stand outside of all blocks. -/
private def leaveBlocks? (l : Lexer) : Option Lexer := do
  let l ← (l.closeBlocks (-1)).dropKey?
  return { l with keyAllowed := false }

private def documentMark? (l : Lexer) (t : Token) : Option Lexer :=
  l.leaveBlocks?.map (·.emitSkip t 3)

private def directive? (l : Lexer) : Option Lexer := do
  let l ← l.leaveBlocks?
  let (token, cursor) ← Tag.directive? l.cursor
  return { l.emit token with cursor }

/-- Whether a plain scalar may begin with this character. -/
private def startsPlain (inFlow : Bool) (c : Char) (rest : List Char) : Bool :=
  !(isBlank c || isLineBreak c || "-?:,[]\x7b\x7d#&*!|>'\"%@".contains c || c = Char.ofNat 96) ||
    (c = '-' && !rest.head?.any isBlank) ||
    (!inFlow && (c = '?' || c = ':') && !atGap rest)

/-- The token at this place, which is neither a gap nor the end. -/
private def token? (l : Lexer) : Option Lexer :=
  match l.cursor.rest with
  | [] => none
  | c :: rest =>
    let gapAfter := atGap rest
    if l.cursor.column = 0 ∧ c = '%' then l.directive?
    else if l.cursor.atDocumentMark then
      l.documentMark? (if c = '-' then .documentStart else .documentEnd)
    else if c = '[' then l.openFlow? .flowSequenceStart
    else if c = '{' then l.openFlow? .flowMappingStart
    else if c = ']' then l.closeFlow? .flowSequenceEnd
    else if c = '}' then l.closeFlow? .flowMappingEnd
    else if c = ',' then l.flowEntry?
    else if c = '-' ∧ gapAfter then l.blockEntry?
    else if c = '?' ∧ (l.inFlow || gapAfter) then l.explicitKey?
    else if c = ':' ∧ (l.inFlow || gapAfter) then l.value?
    else if c = '*' then l.anchor? .alias
    else if c = '&' then l.anchor? .anchor
    else if c = '!' then l.tag?
    else if c = '|' ∧ !l.inFlow then l.blockScalar? true
    else if c = '>' ∧ !l.inFlow then l.blockScalar? false
    else if c = '\'' then l.quotedScalar? .single
    else if c = '"' then l.quotedScalar? .double
    else if startsPlain l.inFlow c rest then l.plainScalar?
    else none

/-- What is left to do at the end of a text. -/
private def finish? (l : Lexer) : Option (List Token) := do
  let l ← (l.closeBlocks (-1)).dropKey?
  return l.tokens.toList

private def tokensFrom? : Nat → Lexer → Option (List Token)
  | 0, _ => none
  | fuel + 1, l => do
    let l ← (skipGaps (l.cursor.left + 1) l).dropStaleKeys?
    let l := l.closeBlocks l.column
    if l.cursor.rest.isEmpty then l.finish?
    else
      let l ← l.token?
      tokensFrom? fuel l

end Lexer

/-- The tokens of a text. A byte order mark may stand before it. -/
def tokens? (text : List Char) : Option (List Token) :=
  let text :=
    match text with
    | '\uFEFF' :: rest => rest
    | _ => text
  if text.all isReadable then Lexer.tokensFrom? (text.length + 1) (.start text) else none

end LinkedApi.Yaml
