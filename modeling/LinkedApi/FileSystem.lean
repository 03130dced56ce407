import LinkedApi.FileError
import LinkedApi.Path

/-!
# File systems

A tree of directories and files without links. A path is followed step by step from the root or
from the working directory, and every step but the last leads to a directory. The limits on names
and paths are those of the usual systems.
-/

namespace LinkedApi

/-- A place in the tree: the names on the way to it from the root. -/
abbrev Place := List String

namespace FileSystem

inductive Entry where
  | directory
  | file (bytes : ByteArray)

instance : DecidableEq Entry
  | .directory, .directory => isTrue rfl
  | .directory, .file _ => isFalse nofun
  | .file _, .directory => isFalse nofun
  | .file bytes, .file bytes' =>
    decidable_of_decidable_of_iff (p := bytes.data = bytes'.data)
      ⟨fun h => congrArg Entry.file (ByteArray.ext h), fun h => congrArg ByteArray.data (Entry.file.inj h)⟩

end FileSystem

structure FileSystem where
  /-- What is at each place below the root. A directory is there for whatever is in it. -/
  entries : List (Place × FileSystem.Entry)
  workingDirectory : Place

namespace FileSystem

/-- What is at a place; at the root is a directory. -/
def entry? (fs : FileSystem) (place : Place) : Option Entry :=
  if place.isEmpty then some .directory else (fs.entries.find? (·.1 == place)).map (·.2)

/-- Puts an entry at a place, over what is there. -/
def setEntries (place : Place) (entry : Entry) :
    List (Place × Entry) → List (Place × Entry)
  | [] => [(place, entry)]
  | (at_, old) :: rest =>
    if at_ = place then (place, entry) :: rest else (at_, old) :: setEntries place entry rest

def set (fs : FileSystem) (place : Place) (entry : Entry) : FileSystem :=
  { fs with entries := setEntries place entry fs.entries }

/-- Puts an entry at a place, with directories on the way to it. -/
def plant (fs : FileSystem) (place : Place) (entry : Entry) : FileSystem :=
  let way := (List.range place.length).map place.take
  let grounded := way.foldl (fun fs directory =>
    if (fs.entry? directory).isSome then fs else fs.set directory .directory) fs
  if entry = .directory ∧ (grounded.entry? place).isSome then grounded
  else grounded.set place entry

/-- No files, in a working directory. -/
def empty (workingDirectory : Place) : FileSystem :=
  (FileSystem.mk [] workingDirectory).plant workingDirectory .directory

/-! ## Following paths -/

/-- Where a path leads: to an entry, or to a place in a directory where nothing is. -/
inductive Target where
  | entry (place : Place) (entry : Entry)
  | vacant (place : Place)
  deriving DecidableEq

/-- Most bytes in one name. -/
def nameLimit : Nat := 255

/-- Most bytes in one path. -/
def pathLimit : Nat := 4095

/-- Takes steps from a directory. -/
def walk (fs : FileSystem) (place : Place) : List String → Except FileError Target
  | [] => .ok (.entry place .directory)
  | step :: rest =>
    if step = "." then fs.walk place rest
    else if step = Path.up then fs.walk place.dropLast rest
    else if nameLimit < step.utf8ByteSize then .error .nameTooLong
    else
      let next := place ++ [step]
      match fs.entry? next with
      | some .directory => fs.walk next rest
      | some (.file bytes) =>
        if rest.isEmpty then .ok (.entry next (.file bytes)) else .error .notDirectory
      | none => if rest.isEmpty then .ok (.vacant next) else .error .notFound

def steps (path : String) : List String :=
  ((Text.splitAt '/' path.toList).map String.ofList).filter (· ≠ "")

def target (fs : FileSystem) (path : String) : Except FileError Target :=
  if path.toList.contains '\x00' then .error .nulInPath
  else if path.isEmpty then .error .notFound
  else if pathLimit < path.utf8ByteSize then .error .nameTooLong
  else fs.walk (if path.startsWith "/" then [] else fs.workingDirectory) (steps path)

/-- Whether a path names a directory by a slash at its end. -/
def namesDirectory (path : String) : Bool := path.endsWith "/"

/-! ## Operations -/

def readBytes (fs : FileSystem) (path : String) : Except FileError ByteArray := do
  match ← fs.target path with
  | .entry _ .directory => throw .isDirectory
  | .entry _ (.file bytes) => if namesDirectory path then throw .notDirectory else return bytes
  | .vacant _ => throw .notFound

/-- The text of a file, which must be UTF-8. -/
def readText (fs : FileSystem) (path : String) : Except FileError String := do
  let bytes ← fs.readBytes path
  match String.fromUTF8? bytes with
  | some text => return text
  | none => throw .notText

def exists? (fs : FileSystem) (path : String) : Bool :=
  match fs.target path with
  | .ok (.entry _ .directory) => true
  | .ok (.entry _ (.file _)) => !namesDirectory path
  | _ => false

def isDirectory (fs : FileSystem) (path : String) : Bool :=
  match fs.target path with
  | .ok (.entry _ .directory) => true
  | _ => false

/-- Writes a whole file, over what it held. -/
def writeText (fs : FileSystem) (path text : String) : Except FileError FileSystem := do
  match ← fs.target path with
  | .entry _ .directory => throw .isDirectory
  | .entry place (.file _) | .vacant place =>
    if namesDirectory path then throw .isDirectory
    else return fs.set place (.file text.toUTF8)

/-- Writes at the end of a file, which must exist. -/
def appendText (fs : FileSystem) (path text : String) : Except FileError FileSystem := do
  match ← fs.target path with
  | .entry _ .directory => throw .isDirectory
  | .entry place (.file bytes) =>
    if namesDirectory path then throw .notDirectory
    else return fs.set place (.file (bytes ++ text.toUTF8))
  | .vacant _ => throw .notFound

/-- Writes at the end of a file, which is created if it does not exist. -/
def appendOrCreate (fs : FileSystem) (path text : String) : Except FileError FileSystem := do
  match ← fs.target path with
  | .vacant _ => fs.writeText path text
  | .entry .. => if namesDirectory path then throw .isDirectory else fs.appendText path text

def makeDirectory (fs : FileSystem) (path : String) : Except FileError FileSystem := do
  match ← fs.target path with
  | .entry .. => throw .exists
  | .vacant place => return fs.set place .directory

/-- Whether a directory has to be made is found by trying; one that is there already will do. -/
def settleDirectory (fs : FileSystem) (path : String) :
    Except FileError FileSystem :=
  match fs.makeDirectory path with
  | .ok made => .ok made
  | .error cause => if fs.isDirectory path then .ok fs else .error cause

/-- Makes a directory at a relative or absolute path, given by its steps in reverse. -/
def makeUpward (absolute : Bool) (fs : FileSystem) :
    List String → Except FileError FileSystem
  | [] => .ok fs
  | name :: above => do
    let path := (Path.mk absolute (name :: above).reverse).toString
    match fs.makeDirectory path with
    | .error .notFound => settleDirectory (← makeUpward absolute fs above) path
    | .ok made => return made
    | .error cause => if fs.isDirectory path then return fs else throw cause

/-- Makes a directory, and those on the way to it that do not exist. -/
def makeDirectories (fs : FileSystem) (path : String) : Except FileError FileSystem := do
  if path.isEmpty then return fs
  match fs.makeDirectory path with
  | .ok made => return made
  | .error .notFound =>
    let above := (Path.ofText path).parent
    settleDirectory (← makeUpward above.absolute fs above.steps.reverse) path
  | .error cause => if fs.isDirectory path then return fs else throw cause

/-- The files below a directory, by their paths from it. -/
def filesBelow (fs : FileSystem) (directory : Place) : List (String × ByteArray) :=
  fs.entries.filterMap fun (place, entry) =>
    match entry with
    | .file bytes =>
      if directory.isPrefixOf place then
        some ((Path.mk false (place.drop directory.length)).toString, bytes)
      else none
    | .directory => none

end FileSystem

end LinkedApi
