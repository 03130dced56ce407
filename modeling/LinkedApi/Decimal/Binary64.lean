/-!
# Double-precision numbers as bit patterns

A number is kept as its 64 bits, so that two numbers are equal exactly when they are the same
double, and every operation below is exact arithmetic on natural numbers followed by one
rounding to the nearest double (a tie goes to the even neighbour).
-/

namespace LinkedApi

-- What `^` stands for depends on the algebra that is imported; these are always the same.

def twoTo (n : Nat) : Nat := Nat.pow 2 n

def tenTo (n : Nat) : Nat := Nat.pow 10 n

/-- An IEEE 754 double, identified by its bits. -/
structure Binary64 where
  bits : UInt64
  deriving DecidableEq, Repr, Inhabited

namespace Binary64

/-- The exponent field of an infinity or a NaN. -/
def maxExponentField : Nat := 2047

/-- The bit that carries the sign, as a number. -/
def signBit : Nat := twoTo 63

def exponentField (x : Binary64) : Nat := x.bits.toNat / twoTo 52 % 2048

def fraction (x : Binary64) : Nat := x.bits.toNat % twoTo 52

def isNegative (x : Binary64) : Bool := signBit ≤ x.bits.toNat

def isFinite (x : Binary64) : Bool := x.exponentField != maxExponentField

def isNaN (x : Binary64) : Bool := x.exponentField == maxExponentField && x.fraction != 0

/-- The mantissa and the power of two of a finite magnitude: its value is `m * 2 ^ q`. -/
def magnitude (x : Binary64) : Nat × Int :=
  if x.exponentField = 0 then (x.fraction, -1074)
  else (x.fraction + twoTo 52, (x.exponentField : Int) - 1075)

def withSign (negative : Bool) (bits : Nat) : Binary64 :=
  ⟨UInt64.ofNat (if negative then signBit + bits else bits)⟩

def zero (negative : Bool) : Binary64 := withSign negative 0

def infinity (negative : Bool) : Binary64 := withSign negative (maxExponentField * twoTo 52)

/-- The one NaN that texts denote. -/
def nan : Binary64 := ⟨0x7ff8000000000000⟩

def negate (x : Binary64) : Binary64 := ⟨x.bits ^^^ UInt64.ofNat signBit⟩

/-- Numeric equality, under which the two zeros are equal and so is NaN to itself. -/
def same (x y : Binary64) : Bool :=
  x.bits == y.bits || (x.isNaN && y.isNaN) ||
    (x.magnitude.1 == 0 && y.magnitude.1 == 0 && x.isFinite && y.isFinite)

/-- `num * 2 ^ -q / den` as quotient, remainder and divisor. -/
private def scaled (num den : Nat) (q : Int) : Nat × Nat × Nat :=
  let num := num * twoTo (-q).toNat
  let den := den * twoTo q.toNat
  (num / den, num % den, den)

/-- The double nearest to `num / den`; beyond the finite range it is an infinity. -/
def ofRatio (negative : Bool) (num den : Nat) : Binary64 :=
  if num = 0 ∨ den = 0 then zero negative
  else
    let guess : Int := (num.log2 : Int) - den.log2 - 52
    let exponent := if (scaled num den guess).1 < twoTo 52 then guess - 1 else guess
    let exponent := max exponent (-1074)
    let (quotient, remainder, divisor) := scaled num den exponent
    let roundsUp := divisor < 2 * remainder || (2 * remainder == divisor && quotient % 2 == 1)
    let mantissa := if roundsUp then quotient + 1 else quotient
    let bits :=
      if mantissa < twoTo 52 then mantissa
      else (exponent + 1074).toNat * twoTo 52 + mantissa
    if maxExponentField * twoTo 52 ≤ bits then infinity negative else withSign negative bits

def ofNat (n : Nat) : Binary64 := ofRatio false n 1

/-- Number of decimal digits; zero has one. -/
def decimalLength (n : Nat) : Nat := (Nat.toDigits 10 n).length

/-- The double nearest to `digits * 10 ^ exponent`. Exponents far outside the range of doubles
are answered without building the power of ten. -/
def ofDecimal (negative : Bool) (digits : Nat) (exponent : Int) : Binary64 :=
  let size : Int := exponent + decimalLength digits
  if digits = 0 then zero negative
  else if 310 < size then infinity negative
  else if size < -330 then zero negative
  else ofRatio negative (digits * tenTo exponent.toNat) (tenTo (-exponent).toNat)

/-- The product, rounded once; both factors are finite. -/
def mul (x y : Binary64) : Binary64 :=
  let (m, p) := x.magnitude
  let (n, q) := y.magnitude
  ofRatio (x.isNegative != y.isNegative)
    (m * n * twoTo (p + q).toNat) (twoTo (-(p + q)).toNat)

/-- The quotient, rounded once; both operands are finite and the divisor is not zero. -/
def div (x y : Binary64) : Binary64 :=
  let (m, p) := x.magnitude
  let (n, q) := y.magnitude
  ofRatio (x.isNegative != y.isNegative)
    (m * twoTo (p - q).toNat) (n * twoTo (q - p).toNat)

end Binary64

end LinkedApi
