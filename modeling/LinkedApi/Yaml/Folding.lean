import LinkedApi.Yaml.Cursor

/-!
# Folding of lines

Between two runs of text on different lines, blanks do not count; one line break becomes a space,
and of several all but the first are kept. Blanks between runs on one line are kept.
-/

namespace LinkedApi.Yaml

/-- Blanks and line breaks after a run of text. -/
structure Gap where
  /-- Blanks, while no line has ended. -/
  blanks : List Char
  firstBreak : List Char
  laterBreaks : List Char
  /-- Whether a line ended, so that blanks do not count. -/
  broken : Bool

namespace Gap

def none : Gap := ⟨[], [], [], false⟩

/-- The text that a gap stands for when more text follows. -/
def folded (g : Gap) : List Char :=
  if !g.broken then g.blanks
  else if g.firstBreak = ['\n'] then (if g.laterBreaks.isEmpty then [' '] else g.laterBreaks)
  else g.firstBreak ++ g.laterBreaks

private def read? (indent : Int) : Nat → Gap → Cursor → Option (Gap × Cursor)
  | 0, g, c => some (g, c)
  | fuel + 1, g, c =>
    match c.rest with
    | [] => some (g, c)
    | char :: _ =>
      if isBlank char then
        if g.broken && c.column < indent && char = '\t' then .none
        else
          let g := if g.broken then g else { g with blanks := g.blanks ++ [char] }
          read? indent fuel g (c.skip 1)
      else if isLineBreak char then
        let (text, next) := c.takeBreak
        let g :=
          if g.broken then { g with laterBreaks := g.laterBreaks ++ text }
          else ⟨[], text, [], true⟩
        read? indent fuel g next
      else some (g, c)

/-- Extends a gap to the next text. A tab in the columns of the indentation is an error. -/
def extend? (indent : Int) (g : Gap) (c : Cursor) : Option (Gap × Cursor) :=
  read? indent (c.left + 1) g c

end Gap

end LinkedApi.Yaml
