import LinkedApi.Json.Basic
import LinkedApi.Text.Digits

/-!
# JSON numbers

A number without fraction or exponent that fits a signed or unsigned 64-bit word stays an
integer. Any other number becomes a double in two steps: the leading digits that fit an unsigned
64-bit word are converted, and the result is scaled by powers of ten that are themselves doubles.
Each step rounds once, so the last bit may differ from the nearest double.
-/

namespace LinkedApi.Json

/-- The parts of a numeral as written: digits before and after the point, and the exponent. -/
structure Numeral where
  negative : Bool
  whole : List Char
  fraction : Option (List Char)
  exponent : Option Int

def absorb (significand : Nat) : List Char → Nat × Nat
  | [] => (significand, 0)
  | c :: rest =>
    let next := significand * 10 + (c.toNat - 48)
    if next < twoTo 64 then absorb next rest else (significand, rest.length + 1)

def powerOfTen (n : Nat) : Binary64 := Binary64.ofDecimal false 1 n

/-- Scales by a power of ten of at most 308 places at a time; a result out of range is refused. -/
def scaleBy (x : Binary64) (exponent : Int) : Nat → Option Binary64
  | 0 => some (.zero false)
  | fuel + 1 =>
    if x.magnitude.1 = 0 then some x
    else if 308 < exponent then none
    else if 0 ≤ exponent then
      let scaled := x.mul (powerOfTen exponent.toNat)
      if scaled.isFinite then some scaled else none
    else if -308 ≤ exponent then some (x.div (powerOfTen exponent.natAbs))
    else scaleBy (x.div (powerOfTen 308)) (exponent + 308) fuel

/-- The value of a numeral; none when it is out of the range of doubles. -/
def Numeral.value? (n : Numeral) : Option Json :=
  let (significand, dropped) := absorb 0 n.whole
  let signed (x : Binary64) : Json := .float (if n.negative then x.negate else x)
  if dropped = 0 ∧ n.fraction = none ∧ n.exponent = none then
    if !n.negative then some (.int significand)
    else if significand = 0 ∨ twoTo 63 < significand then some (signed (.ofNat significand))
    else some (.int (-significand))
  else
    let digits := n.fraction.getD []
    let (significand, ignored) := absorb significand digits
    let exponent : Int := (dropped : Int) - (digits.length - ignored : Nat) + n.exponent.getD 0
    (scaleBy (.ofNat significand) exponent 4).map signed

/-- Digits at the front of a text, and what follows. -/
def digitRun (cs : List Char) : List Char × List Char := cs.span Text.isDigit

def wholePart? (cs : List Char) : Option (List Char × List Char) :=
  match digitRun cs with
  | ([], _) => none
  | ('0' :: _ :: _, _) => none
  | (digits, rest) => some (digits, rest)

def fractionPart? : List Char → Option (Option (List Char) × List Char)
  | '.' :: cs =>
    match digitRun cs with
    | ([], _) => none
    | (digits, rest) => some (some digits, rest)
  | cs => some (none, cs)

def exponentDigits? (negative : Bool) (cs : List Char) :
    Option (Option Int × List Char) :=
  match digitRun cs with
  | ([], _) => none
  | (digits, rest) =>
    (Text.numeral? 10 digits).map fun n => (some (if negative then -(n : Int) else n), rest)

def exponentPart? (cs : List Char) : Option (Option Int × List Char) :=
  match cs with
  | c :: rest =>
    if c = 'e' ∨ c = 'E' then
      match rest with
      | '+' :: digits => exponentDigits? false digits
      | '-' :: digits => exponentDigits? true digits
      | digits => exponentDigits? false digits
    else some (none, cs)
  | [] => some (none, [])

/-- A numeral at the front of a text, and what follows it. -/
def Numeral.parse? (cs : List Char) : Option (Numeral × List Char) := do
  let (negative, unsigned) :=
    match cs with
    | '-' :: rest => (true, rest)
    | _ => (false, cs)
  let (whole, rest) ← wholePart? unsigned
  let (fraction, rest) ← fractionPart? rest
  let (exponent, rest) ← exponentPart? rest
  return ({ negative, whole, fraction, exponent }, rest)

end LinkedApi.Json
