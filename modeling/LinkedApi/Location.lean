import LinkedApi.Path

/-!
# Locations of documents

A document is a local file or stands at a URL. A reference inside it is relative to the directory
of the file, or to the last slash of the URL.
-/

namespace LinkedApi

inductive Location where
  | file (path : Path)
  | url (text : String)
  deriving DecidableEq, Repr, Inhabited

namespace Location

/-- Whether a text is an absolute URL that is fetched over the network. -/
def isRemote (text : String) : Bool := text.startsWith "http://" || text.startsWith "https://"

/-- The path that a plain path or a `file://` location names. -/
def filePath (text : String) : String :=
  if text.startsWith "file://" then (text.drop 7).toString else text

def ofText (text : String) : Location :=
  if isRemote text then .url text else .file (Path.ofText (filePath text)).normalize

def toString : Location → String
  | .file path => path.toString
  | .url text => text

/-- Takes one segment of a URL's path; `taken` holds the segments before it in reverse. -/
def urlStep (taken : List (List Char)) (segment : List Char) : List (List Char) :=
  if segment = ['.'] then taken
  else if segment = ['.', '.'] then taken.drop 1
  else segment :: taken

/-- The path of a URL, which begins with a slash, with its dot segments taken. -/
def normalizeUrlPath (path : List Char) : List Char :=
  '/' :: Text.joinWith '/' (((Text.splitAt '/' path).drop 1).foldl urlStep []).reverse

/-- How many characters there are up to the end of the first `://`; `passed` counts those before
this text. -/
def afterScheme (passed : Nat) : List Char → Option Nat
  | ':' :: '/' :: '/' :: _ => some (passed + 3)
  | _ :: rest => afterScheme (passed + 1) rest
  | [] => none

/-- A URL before and after the end of its host; a URL that ends there has the path `/`. -/
def splitOrigin (url : List Char) : List Char × List Char :=
  let start := (afterScheme 0 url).getD 0
  let host := (url.drop start).takeWhile (· ≠ '/')
  let path := url.drop (start + host.length)
  (url.take (start + host.length), if path.isEmpty then ['/'] else path)

/-- A path up to its last slash, with it. -/
def directoryOf (path : List Char) : List Char :=
  (path.reverse.dropWhile (· ≠ '/')).reverse

/-- A target without scheme as seen from a URL. -/
def joinUrl (base target : List Char) : List Char :=
  let (origin, path) := splitOrigin base
  let joined := if target.head? = some '/' then target else directoryOf path ++ target
  origin ++ normalizeUrlPath joined

/-- A target as seen from a document. -/
def join (base : Location) (target : String) : Location :=
  if isRemote target then .url target
  else if target.startsWith "file://" then ofText target
  else
    match base with
    | .file path => .file (path.parent.join (Path.ofText target)).normalize
    | .url text => .url (String.ofList (joinUrl text.toList target.toList))

end Location

end LinkedApi
