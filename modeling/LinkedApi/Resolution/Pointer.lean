import LinkedApi.Text.Digits
import LinkedApi.Text.Split
import LinkedApi.Yaml.Basic

/-!
# Pointers

A pointer is empty or a list of tokens, each after a slash. A token is the key of a mapping or
the index of a sequence; in a key, `~1` is a slash and `~0` a tilde.
-/

namespace LinkedApi.Pointer

/-- Replaces a tilde with a digit after it, reading from left to right. -/
def replaceEscape (digit by' : Char) : List Char → List Char
  | '~' :: d :: rest =>
    if d = digit then by' :: replaceEscape digit by' rest
    else '~' :: replaceEscape digit by' (d :: rest)
  | c :: rest => c :: replaceEscape digit by' rest
  | [] => []

def unescape (token : List Char) : List Char :=
  replaceEscape '0' '~' (replaceEscape '1' '/' token)

/-- The index that a token of digits names; a plus sign may stand before them. -/
def index? : List Char → Option Nat
  | '+' :: digits => if digits.all Text.isDigit then Text.numeral? 10 digits else none
  | digits => if digits.all Text.isDigit then Text.numeral? 10 digits else none

def step? (node : Yaml) (token : List Char) : Option Yaml :=
  match node with
  | .map entries => Yaml.lookup? entries (String.ofList (unescape token))
  | .seq items => (index? (unescape token)).bind (items[·]?)
  | _ => none

/-- The tokens of a pointer. -/
def tokens? : List Char → Option (List (List Char))
  | [] => some []
  | '/' :: rest => some (Text.splitAt '/' rest)
  | _ => none

/-- The node that a pointer selects. -/
def select? (root : Yaml) (pointer : String) : Option Yaml := do
  (← tokens? pointer.toList).foldlM step? root

end LinkedApi.Pointer
