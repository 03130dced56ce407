import LinkedApi.Artifact
import LinkedApi.FileAccess

/-!
# Sinks

Where artifacts are written to. An artifact is created empty, over whatever was there, and then
text is appended to it, as a whole or not at all.
-/

namespace LinkedApi

structure Sink (m : Type → Type) where
  create : Artifact → m (Except FileError Unit)
  append : Artifact → String → m (Except FileError Unit)

namespace Sink

/-- The same sink with its effects in another monad. -/
def lift {m n : Type → Type} (run : {α : Type} → m α → n α) (sink : Sink m) : Sink n where
  create artifact := run (sink.create artifact)
  append artifact text := run (sink.append artifact text)

/-- Creates artifacts in order, until one cannot be created. -/
def createAll {m : Type → Type} [Monad m] (sink : Sink m) :
    List Artifact → m (Except FileError Unit)
  | [] => return .ok ()
  | artifact :: rest => do
    match ← sink.create artifact with
    | .ok () => sink.createAll rest
    | .error cause => return .error cause

/-- The file of an artifact in a directory. -/
def filePath (directory : String) (artifact : Artifact) : String :=
  Path.append directory artifact.fileName

/-- Writes each artifact to its file in a directory, which is made when it is needed. -/
def files {m : Type → Type} [Monad m] (access : FileAccess m) (directory : String) : Sink m where
  create artifact := do
    match ← access.makeDirectories directory with
    | .ok () => access.writeText (filePath directory artifact) ""
    | .error cause => return .error cause
  append artifact text := access.appendText (filePath directory artifact) text

end Sink

end LinkedApi
