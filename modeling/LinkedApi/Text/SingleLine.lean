/-!
# Single-line texts

Spaces and line breaks between words become one space; there are none at either end. A tab is
part of a word.
-/

namespace LinkedApi.Text

def isSeparator (c : Char) : Bool := c = ' ' || c = '\n' || c = '\r'

/-- `started` says whether a word was written before, `pending` whether separators follow it. -/
def singleLineFrom (started pending : Bool) : List Char → List Char
  | [] => []
  | c :: rest =>
    if isSeparator c then singleLineFrom started true rest
    else if started && pending then ' ' :: c :: singleLineFrom true false rest
    else c :: singleLineFrom true false rest

def singleLine (cs : List Char) : List Char := singleLineFrom false false cs

end LinkedApi.Text
