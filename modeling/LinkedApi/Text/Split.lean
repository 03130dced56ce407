/-!
# Pieces of a text

A text is split at each occurrence of a character, so there is one piece more than occurrences.
-/

namespace LinkedApi.Text

def splitAt (separator : Char) : List Char → List (List Char)
  | [] => [[]]
  | c :: rest =>
    if c = separator then [] :: splitAt separator rest
    else
      match splitAt separator rest with
      | piece :: pieces => (c :: piece) :: pieces
      | [] => [[c]]

/-- The pieces with the separator between them. -/
def joinWith (separator : Char) (pieces : List (List Char)) : List Char :=
  [separator].intercalate pieces

/-- What stands before and after the first occurrence of a character. -/
def splitFirst? (separator : Char) : List Char → Option (List Char × List Char)
  | [] => none
  | c :: rest =>
    if c = separator then some ([], rest)
    else (splitFirst? separator rest).map fun (before, after) => (c :: before, after)

end LinkedApi.Text
