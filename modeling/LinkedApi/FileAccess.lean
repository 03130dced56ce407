import LinkedApi.FileSystem

/-!
# Access to files

What is done with files, with effects in some monad: on a file system that is a value, or on the
files of the machine.
-/

namespace LinkedApi

structure FileAccess (m : Type → Type) where
  readText : String → m (Except FileError String)
  /-- Writes a whole file, over what it held. -/
  writeText : String → String → m (Except FileError Unit)
  /-- Writes at the end of a file, which must exist. -/
  appendText : String → String → m (Except FileError Unit)
  /-- Writes at the end of a file, which is created if it does not exist. -/
  appendOrCreate : String → String → m (Except FileError Unit)
  /-- Makes a directory, and those on the way to it that do not exist. -/
  makeDirectories : String → m (Except FileError Unit)
  exists? : String → m Bool

namespace FileAccess

/-- The same access with its effects in another monad. -/
def lift {m n : Type → Type} (run : {α : Type} → m α → n α) (access : FileAccess m) :
    FileAccess n where
  readText path := run (access.readText path)
  writeText path text := run (access.writeText path text)
  appendText path text := run (access.appendText path text)
  appendOrCreate path text := run (access.appendOrCreate path text)
  makeDirectories path := run (access.makeDirectories path)
  exists? path := run (access.exists? path)

/-- An operation on a file system; one that fails changes nothing. -/
def change (operation : FileSystem → Except FileError FileSystem) :
    StateM FileSystem (Except FileError Unit) := do
  match operation (← get) with
  | .ok changed =>
    set changed
    return .ok ()
  | .error cause => return .error cause

/-- Access to a file system that is a value. -/
def ofState : FileAccess (StateM FileSystem) where
  readText path := return (← get).readText path
  writeText path text := change (·.writeText path text)
  appendText path text := change (·.appendText path text)
  appendOrCreate path text := change (·.appendOrCreate path text)
  makeDirectories path := change (·.makeDirectories path)
  exists? path := return (← get).exists? path

end FileAccess

end LinkedApi
