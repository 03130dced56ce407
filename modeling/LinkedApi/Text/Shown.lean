import LinkedApi.Text.Digits
import LinkedApi.Text.Unprintable

/-!
# Texts as they are shown

For inspection a text is put between double quotes, on one line, and every character in it can
be told: those that are not printable are given by number.
-/

namespace LinkedApi.Text

def showChar (c : Char) : List Char :=
  if c = '"' then ['\\', '"']
  else if c = '\\' then ['\\', '\\']
  else if c = '\n' then ['\\', 'n']
  else if c = '\r' then ['\\', 'r']
  else if c = '\t' then ['\\', 't']
  else if c = '\x00' then ['\\', '0']
  else if isPrintable c then [c]
  else ['\\', 'u', '{'] ++ hexadecimal c.toNat ++ ['}']

def shown (text : String) : String :=
  String.ofList ('"' :: text.toList.flatMap showChar ++ ['"'])

/-- Items between brackets. -/
def shownList (items : List String) : String := "[" ++ ", ".intercalate items ++ "]"

/-- Named fields between braces. -/
def shownRecord (name : String) (fields : List (String × String)) : String :=
  let items := fields.map fun (field, value) => field ++ ": " ++ value
  name ++ " \x7b " ++ ", ".intercalate items ++ " \x7d"

end LinkedApi.Text
