/-!
# Identifiers of the generated code

A name may be bound in the generated modules when it follows the grammar of identifiers, kept to
ASCII, and is no reserved word. The module wrapper binds five names of its own, which definitions
at the top level must not take.
-/

namespace LinkedApi.Text

def isLetter (c : Char) : Bool := ('a' ≤ c && c ≤ 'z') || ('A' ≤ c && c ≤ 'Z')

def isIdentifierStart (c : Char) : Bool := isLetter c || c = '_' || c = '$'

def isIdentifierChar (c : Char) : Bool := isIdentifierStart c || ('0' ≤ c && c ≤ '9')

def reservedWords : List String :=
  ["await", "break", "case", "catch", "class", "const", "continue", "debugger", "default",
    "delete", "do", "else", "enum", "export", "extends", "false", "finally", "for", "function",
    "if", "implements", "import", "in", "instanceof", "interface", "let", "new", "null",
    "package", "private", "protected", "public", "return", "static", "super", "switch", "this",
    "throw", "true", "try", "typeof", "var", "void", "while", "with", "yield"]

/-- Names bound in every generated module by the wrapper around it. -/
def wrapperBindings : List String := ["exports", "module", "require", "__filename", "__dirname"]

/-- Whether a text has the form of an identifier. -/
def hasIdentifierForm : List Char → Bool
  | [] => false
  | c :: rest => isIdentifierStart c && rest.all isIdentifierChar

def isIdentifier (name : String) : Bool :=
  hasIdentifierForm name.toList && !reservedWords.contains name

def isWrapperBinding (name : String) : Bool := wrapperBindings.contains name

end LinkedApi.Text
