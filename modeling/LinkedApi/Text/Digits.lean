/-!
# Digits

Reading and writing numerals of a given base, digit by digit.
-/

namespace LinkedApi.Text

/-- The value of a hexadecimal digit of either case; smaller bases use a part of its range. -/
def digitValue? (c : Char) : Option Nat :=
  if '0' ≤ c ∧ c ≤ '9' then some (c.toNat - 48)
  else if 'a' ≤ c ∧ c ≤ 'f' then some (c.toNat - 87)
  else if 'A' ≤ c ∧ c ≤ 'F' then some (c.toNat - 55)
  else none

def isDigit (c : Char) : Bool := '0' ≤ c && c ≤ '9'

def numeralFrom (base : Nat) : Nat → List Char → Option Nat
  | acc, [] => some acc
  | acc, c :: rest =>
    match digitValue? c with
    | some d => if d < base then numeralFrom base (acc * base + d) rest else none
    | none => none

/-- The value of a non-empty string of digits; leading zeros are allowed and a sign is not. -/
def numeral? (base : Nat) (cs : List Char) : Option Nat :=
  if cs.isEmpty then none else numeralFrom base 0 cs

/-- The lower-case hexadecimal digits of a number, without leading zeros. -/
def hexadecimal (n : Nat) : List Char := Nat.toDigits 16 n

/-- The same, filled up with zeros on the left to at least `width` digits. -/
def paddedHexadecimal (width n : Nat) : List Char :=
  List.replicate (width - (hexadecimal n).length) '0' ++ hexadecimal n

def decimal (n : Nat) : List Char := Nat.toDigits 10 n

def decimalInt (n : Int) : List Char :=
  if n < 0 then '-' :: decimal n.natAbs else decimal n.natAbs

end LinkedApi.Text
