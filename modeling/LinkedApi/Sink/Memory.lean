import LinkedApi.Sink

/-!
# Artifacts in memory

A sink that keeps the texts of the artifacts and counts the pieces they were written in.
-/

namespace LinkedApi

/-- The text of an artifact, and how often something was appended to it. -/
structure Recording where
  text : String
  appends : Nat
  deriving DecidableEq, Repr

/-- The artifacts that have been created. -/
abbrev Recordings := Artifact → Option Recording

namespace Recordings

def none : Recordings := fun _ => Option.none

def isEmpty (r : Recordings) : Bool := Artifact.all.all fun artifact => (r artifact).isNone

def set (r : Recordings) (artifact : Artifact) (recording : Recording) : Recordings :=
  fun other => if other = artifact then some recording else r other

def create (r : Recordings) (artifact : Artifact) : Recordings := r.set artifact ⟨"", 0⟩

/-- Appends to an artifact, which must have been created. -/
def append (r : Recordings) (artifact : Artifact) (text : String) :
    Except FileError Recordings :=
  match r artifact with
  | some recording => .ok (r.set artifact ⟨recording.text ++ text, recording.appends + 1⟩)
  | Option.none => .error (.notCreated artifact.fileName)

end Recordings

/-- Keeps the artifacts in memory. -/
def Sink.memory : Sink (StateM Recordings) where
  create artifact := do
    modify (·.create artifact)
    return .ok ()
  append artifact text := do
    match (← get).append artifact text with
    | .ok recordings =>
      set recordings
      return .ok ()
    | .error cause => return .error cause

end LinkedApi
