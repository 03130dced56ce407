import LinkedApi.Text.Digits
import LinkedApi.Text.Split
import LinkedApi.Toml.Basic

/-!
# TOML numbers, booleans and dates

Values that are written without quotes. Underscores may stand between digits, and a decimal
number has no leading zero.
-/

namespace LinkedApi.Toml

/-- Digits with single underscores between them; the digits alone. -/
def grouped? (isDigit : Char → Bool) : List Char → Option (List Char)
  | [] => none
  | [c] => if isDigit c then some [c] else none
  | c :: '_' :: rest => if isDigit c then (grouped? isDigit rest).map (c :: ·) else none
  | c :: rest => if isDigit c then (grouped? isDigit rest).map (c :: ·) else none

/-- Whether a character is a digit of a base. -/
def isDigitOf (base : Nat) (c : Char) : Bool := (Text.digitValue? c).any (· < base)

private def natural? (base : Nat) (cs : List Char) : Option Nat :=
  (grouped? (isDigitOf base) cs).bind (Text.numeral? base)

/-- A sign, if there is one, and what follows it. -/
def signed (cs : List Char) : Option Char × List Char :=
  match cs with
  | '+' :: rest => (some '+', rest)
  | '-' :: rest => (some '-', rest)
  | _ => (none, cs)

/-- Decimal digits without a leading zero. -/
private def decimal? (cs : List Char) : Option Nat :=
  match cs with
  | '0' :: _ :: _ => none
  | _ => natural? 10 cs

def integer? (cs : List Char) : Option Int :=
  match cs with
  | '0' :: 'x' :: digits => (natural? 16 digits).map Int.ofNat
  | '0' :: 'o' :: digits => (natural? 8 digits).map Int.ofNat
  | '0' :: 'b' :: digits => (natural? 2 digits).map Int.ofNat
  | _ =>
    match signed cs with
    | (some '-', digits) => (decimal? digits).map fun n => -(n : Int)
    | (_, digits) => (decimal? digits).map Int.ofNat

private def isExponent (cs : List Char) : Bool := (natural? 10 (signed cs).2).isSome

private def splitExponent (cs : List Char) : List Char × Option (List Char) :=
  match Text.splitFirst? 'e' (cs.map Char.toLower) with
  | some (before, after) => (before, some after)
  | none => (cs, none)

/-- Whether a text is a number with a fraction or an exponent. -/
def isFloat (cs : List Char) : Bool :=
  let unsigned := (signed cs).2
  if unsigned = ['i', 'n', 'f'] || unsigned = ['n', 'a', 'n'] then true
  else
    let (mantissa, exponent) := splitExponent unsigned
    match Text.splitFirst? '.' mantissa with
    | some (whole, fraction) =>
      (decimal? whole).isSome && (natural? 10 fraction).isSome && exponent.all isExponent
    | none => (decimal? mantissa).isSome && exponent.any isExponent

/-! ## Dates and times -/

/-- The number that exactly so many digits write. -/
private def digits? (count : Nat) (cs : List Char) : Option Nat :=
  if cs.length = count ∧ cs.all Text.isDigit then Text.numeral? 10 cs else none

private def isLeapYear (year : Nat) : Bool :=
  year % 4 = 0 && (year % 100 ≠ 0 || year % 400 = 0)

def daysInMonth (year month : Nat) : Nat :=
  if month = 2 then (if isLeapYear year then 29 else 28)
  else if [4, 6, 9, 11].contains month then 30
  else 31

def isDay (cs : List Char) : Bool :=
  match (Text.splitAt '-' cs) with
  | [year, month, day] =>
    match digits? 4 year, digits? 2 month, digits? 2 day with
    | some year, some month, some day =>
      1 ≤ month && month ≤ 12 && 1 ≤ day && day ≤ daysInMonth year month
    | _, _, _ => false
  | _ => false

private def isSecond (cs : List Char) : Bool :=
  match Text.splitAt '.' cs with
  | [second] => (digits? 2 second).any (· ≤ 60)
  | [second, part] => (digits? 2 second).any (· ≤ 60) && !part.isEmpty && part.all Text.isDigit
  | _ => false

def isTime (cs : List Char) : Bool :=
  match Text.splitAt ':' cs with
  | [hour, minute, second] =>
    (digits? 2 hour).any (· < 24) && (digits? 2 minute).any (· < 60) && isSecond second
  | _ => false

private def isOffset (cs : List Char) : Bool :=
  match Text.splitAt ':' cs with
  | [hour, minute] => (digits? 2 hour).any (· < 24) && (digits? 2 minute).any (· < 60)
  | _ => false

private def isZonedTime (cs : List Char) : Bool :=
  let time := cs.takeWhile fun c => Text.isDigit c || c = ':' || c = '.'
  isTime time &&
    match cs.drop time.length with
    | [] => true
    | ['Z'] => true
    | ['z'] => true
    | '+' :: offset => isOffset offset
    | '-' :: offset => isOffset offset
    | _ => false

/-- Whether a text is a date, a time, or both. -/
def isDate (cs : List Char) : Bool :=
  let rest := cs.drop 10
  if isDay (cs.take 10) then
    match rest with
    | [] => true
    | c :: time => (c = 'T' || c = 't' || c = ' ') && isZonedTime time
  else isTime cs

/-- The value that a text without quotes writes. -/
def scalar? (cs : List Char) : Option Toml :=
  if cs = ['t', 'r', 'u', 'e'] then some (.bool true)
  else if cs = ['f', 'a', 'l', 's', 'e'] then some (.bool false)
  else
    match integer? cs with
    | some n => some (.int n)
    | none =>
      if isFloat cs then some (.float (String.ofList cs))
      else if isDate cs then some (.date (String.ofList cs))
      else none

/-- Characters of values without quotes. -/
def isScalarChar (c : Char) : Bool :=
  c.isAlphanum || c = '_' || c = '+' || c = '-' || c = '.' || c = ':'

/-- The text of a value without quotes, and what follows. A blank may stand between a date and
a time. -/
def scalarText (cs : List Char) : List Char × List Char :=
  let (word, rest) := cs.span isScalarChar
  match rest with
  | ' ' :: d :: more =>
    if isDay word && Text.isDigit d then
      let (time, rest) := (d :: more).span isScalarChar
      (word ++ ' ' :: time, rest)
    else (word, rest)
  | _ => (word, rest)

end LinkedApi.Toml
