import LinkedApi.Yaml.Folding

/-!
# Plain scalars

A scalar without quotes ends before a comment, before a colon that a gap follows, at less
indentation than its block and, inside brackets, before the characters that structure them. It
may run over several lines, which are folded like those of a quoted scalar.
-/

namespace LinkedApi.Yaml.Bare

/-- Characters with a meaning of their own inside brackets. -/
def isFlowIndicator (c : Char) : Bool := c ∈ [',', '[', ']', '{', '}']

/-- Whether a colon directly before this text, inside brackets, is an error. -/
private def colonClashes : List Char → Bool
  | c :: _ => isFlowIndicator c || c = '?'
  | [] => false

/-- What ends a run of characters, if anything does at this place. -/
private inductive Stop where
  | gap
  | indicator
  | clash

private def stop? (inFlow : Bool) : List Char → Option Stop
  | [] => some .gap
  | c :: rest =>
    if isBlank c || isLineBreak c then some .gap
    else if inFlow && c = ':' && colonClashes rest then some .clash
    else if (c = ':' && atGap rest) || (inFlow && isFlowIndicator c) then some .indicator
    else none

private def run (inFlow : Bool) : Nat → Cursor → List Char × Stop × Cursor
  | 0, c => ([], .gap, c)
  | fuel + 1, c =>
    match stop? inFlow c.rest, c.rest with
    | none, char :: _ =>
      let (text, stop, c) := run inFlow fuel (c.skip 1)
      (char :: text, stop, c)
    | some stop, _ => ([], stop, c)
    | none, [] => ([], .gap, c)

/-- The text read so far, with the gap after it. -/
private def lines? (inFlow : Bool) (indent : Int) :
    Nat → Gap → Cursor → Option (List Char × Gap × Cursor)
  | 0, _, _ => none
  | fuel + 1, before, c =>
    if c.atDocumentMark || c.next? = some '#' then some ([], before, c)
    else
      match run inFlow (c.left + 1) c with
      | (_, .clash, _) => none
      | (text, .indicator, c) =>
        some (if text.isEmpty then ([], before, c) else (before.folded ++ text, .none, c))
      | (text, .gap, c) => do
        let joined := if text.isEmpty then [] else before.folded ++ text
        let start := if text.isEmpty then before else Gap.none
        if c.rest.isEmpty then return (joined, start, c)
        let (g, c) ← start.extend? indent c
        if !inFlow && c.column < indent then return (joined, g, c)
        let (rest, last, c) ← lines? inFlow indent fuel g c
        return (joined ++ rest, last, c)

/-- The text of a plain scalar that begins here, inside a block of the given indentation, the
place after it, and whether that is on a later line. -/
def scan? (inFlow : Bool) (parent : Int) (c : Cursor) : Option (String × Bool × Cursor) :=
  (lines? inFlow (parent + 1) (c.left + 2) Gap.none c).map
    fun (text, last, c) => (String.ofList text, last.broken, c)

end LinkedApi.Yaml.Bare
