/-!
# Failures of file operations

The causes that the operating system gives, with its texts, and those that arise before it is
asked.
-/

namespace LinkedApi

inductive FileError where
  | notFound
  | exists
  | notDirectory
  | isDirectory
  | nameTooLong
  /-- The file holds bytes that are no UTF-8 text. -/
  | notText
  | nulInPath
  /-- An artifact is written to that has not been created. -/
  | notCreated (fileName : String)
  /-- Any other failure, as the system describes it. -/
  | other (text : String)
  deriving DecidableEq, Repr

def FileError.message : FileError → String
  | .notFound => "No such file or directory (os error 2)"
  | .exists => "File exists (os error 17)"
  | .notDirectory => "Not a directory (os error 20)"
  | .isDirectory => "Is a directory (os error 21)"
  | .nameTooLong => "File name too long (os error 36)"
  | .notText => "stream did not contain valid UTF-8"
  | .nulInPath => "file name contained an unexpected NUL byte"
  | .notCreated fileName => s!"{fileName} has not been created"
  | .other text => text

end LinkedApi
