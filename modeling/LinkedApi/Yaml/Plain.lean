import LinkedApi.Yaml.Basic
import LinkedApi.Text.Digits

/-!
# The value of a scalar

A plain scalar is read as null, a boolean, an integer or a float when it has the form of one, and
is a string otherwise. Integers are kept exactly within 64 bits; beyond those, an integer that
fits 128 bits is refused and a larger one is a float.
-/

namespace LinkedApi.Yaml.Plain

def null? (s : String) : Bool := s ∈ ["null", "Null", "NULL", "~"]

def bool? (s : String) : Option Bool :=
  if s ∈ ["true", "True", "TRUE"] then some true
  else if s ∈ ["false", "False", "FALSE"] then some false
  else none

private def unsignedPart : List Char → List Char
  | '+' :: rest => rest
  | '-' :: rest => rest
  | cs => cs

/-- Digits with a leading zero, such as `007`, are a string. -/
def hasLeadingZero (cs : List Char) : Bool :=
  match unsignedPart cs with
  | '0' :: d :: rest => (d :: rest).all Text.isDigit
  | _ => false

/-- The digits of a numeral in base 16, 8 or 2, with that base. -/
private def based? : List Char → Option (Nat × List Char)
  | '0' :: 'x' :: digits => some (16, digits)
  | '0' :: 'o' :: digits => some (8, digits)
  | '0' :: 'b' :: digits => some (2, digits)
  | _ => none

private def magnitude? (cs : List Char) : Option Nat :=
  match based? cs with
  | some (base, digits) => Text.numeral? base digits
  | none => if hasLeadingZero cs then none else Text.numeral? 10 cs

/-- An integer numeral, of any size. -/
def integer? : List Char → Option Int
  | '+' :: cs => (magnitude? cs).map Int.ofNat
  | '-' :: cs => (magnitude? cs).map fun n => -(n : Int)
  | cs => (magnitude? cs).map Int.ofNat

/-- What an integer of some size is read as. -/
inductive Width where
  | word
  | refused
  | unbounded
  deriving DecidableEq

def width (n : Int) : Width :=
  if -twoTo 63 ≤ n ∧ n < twoTo 64 then .word
  else if -twoTo 127 ≤ n ∧ n < twoTo 128 then .refused
  else .unbounded

private def exponent? : List Char → Option Int
  | '+' :: cs => (Text.numeral? 10 cs).map Int.ofNat
  | '-' :: cs => (Text.numeral? 10 cs).map fun n => -(n : Int)
  | cs => (Text.numeral? 10 cs).map Int.ofNat

private def digitsValue (cs : List Char) : Nat := (Text.numeral? 10 cs).getD 0

/-- The nearest double to a decimal numeral without sign: digits with at most one point among
them and an optional exponent. At least one digit is needed. -/
private def decimal? (negative : Bool) (cs : List Char) : Option Binary64 :=
  let (whole, rest) := cs.span Text.isDigit
  let (fraction, rest) :=
    match rest with
    | '.' :: rest => rest.span Text.isDigit
    | rest => ([], rest)
  let digits := whole ++ fraction
  let value (exponent : Int) :=
    Binary64.ofDecimal negative (digitsValue digits) (exponent - fraction.length)
  if digits.isEmpty then none
  else
    match rest with
    | [] => some (value 0)
    | c :: rest => if c = 'e' ∨ c = 'E' then (exponent? rest).map value else none

/-- A float numeral; a decimal beyond the range of doubles is none. -/
def float? (s : String) : Option Binary64 :=
  if s ∈ [".inf", ".Inf", ".INF", "+.inf", "+.Inf", "+.INF"] then some (.infinity false)
  else if s ∈ ["-.inf", "-.Inf", "-.INF"] then some (.infinity true)
  else if s ∈ [".nan", ".NaN", ".NAN"] then some .nan
  else
    let number :=
      match s.toList with
      | '+' :: cs => decimal? false cs
      | '-' :: cs => decimal? true cs
      | cs => decimal? false cs
    number.filter Binary64.isFinite

/-- The value of a plain scalar; none for an integer of a refused size. -/
def value? (s : String) : Option Yaml :=
  if s.isEmpty || null? s then some .null
  else
    match bool? s with
    | some b => some (.bool b)
    | none =>
      match (integer? s.toList).map fun n => (n, width n) with
      | some (n, .word) => some (.int n)
      | some (_, .refused) => none
      | _ =>
        if hasLeadingZero s.toList then some (.str s)
        else
          match float? s with
          | some x => some (.float x)
          | none => some (.str s)

/-- Tags of the core types, written `!!name`. -/
def coreTag (name : String) : String := "tag:yaml.org,2002:" ++ name

/-- The value of a scalar under a tag of a core type; none when the text does not fit the type.
Any other such tag makes a string. -/
def coreValue? (tag : String) (s : String) : Option Yaml :=
  if tag = coreTag "null" then if null? s then some .null else none
  else if tag = coreTag "bool" then (bool? s).map .bool
  else if tag = coreTag "int" then
    match (integer? s.toList).map fun n => (n, width n) with
    | some (n, .word) => some (.int n)
    | _ => none
  else if tag = coreTag "float" then (float? s).map .float
  else some (.str s)

end LinkedApi.Yaml.Plain
