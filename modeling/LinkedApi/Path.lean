import LinkedApi.Text.Split

/-!
# File paths

A path is absolute or relative and goes through named steps and steps up. Empty steps and steps
to the same directory do not count.
-/

namespace LinkedApi

structure Path where
  absolute : Bool
  /-- Names, and `..` for a step up. -/
  steps : List String
  deriving DecidableEq, Repr, Inhabited

namespace Path

/-- The step to the parent directory. -/
def up : String := ".."

def ofChars (cs : List Char) : Path :=
  { absolute := cs.head? = some '/'
    steps := ((Text.splitAt '/' cs).map String.ofList).filter fun s => s ≠ "" ∧ s ≠ "." }

def ofText (text : String) : Path := ofChars text.toList

def toChars (p : Path) : List Char :=
  (if p.absolute then ['/'] else []) ++ Text.joinWith '/' (p.steps.map String.toList)

def toString (p : Path) : String := String.ofList p.toChars

/-- The path without its last step; without steps it is the empty relative path. -/
def parent (p : Path) : Path :=
  if p.steps.isEmpty then { absolute := false, steps := [] } else { p with steps := p.steps.dropLast }

/-- The path of `q` as seen from the directory `p`. -/
def join (p q : Path) : Path :=
  if q.absolute then q else { p with steps := p.steps ++ q.steps }

/-- One step on a path that is kept in reverse: a step up takes back the step before it, also
when that is itself a step up, and stays where there is none. -/
def normalStep (taken : List String) (step : String) : List String :=
  if step = up then (if taken.isEmpty then [up] else taken.drop 1) else step :: taken

/-- The path with steps up taken, as far as the path alone tells. -/
def normalize (p : Path) : Path :=
  { p with steps := (p.steps.foldl normalStep []).reverse }

/-- The text of a path with one more name at its end. -/
def append (path name : String) : String :=
  if path.isEmpty ∨ path.toList.getLast? = some '/' then path ++ name else path ++ "/" ++ name

end Path

end LinkedApi
