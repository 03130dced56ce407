import LinkedApi.Decimal.Binary64

/-!
# The shortest decimal that reads back

Among the decimals that round to a given double, the one with the fewest digits is chosen, and
of several with that many digits the nearest. The search looks at one, two, … seventeen digits:
on each grid only the two neighbours of the exact value can qualify.
-/

namespace LinkedApi.Decimal

/-- A positive decimal `digits * 10 ^ exponent`. -/
structure Shortest where
  digits : Nat
  exponent : Int
  deriving DecidableEq, Repr

/-- A positive value in quarters of its own unit, with the bounds of what rounds to it. -/
private structure Interval where
  low : Nat
  value : Nat
  high : Nat
  /-- All three are multiples of two to this power. -/
  scale : Int
  closed : Bool

private def Interval.of (m : Nat) (q : Int) : Interval :=
  { low := 4 * m - (if m = twoTo 52 ∧ q ≠ -1074 then 1 else 2)
    value := 4 * m
    high := 4 * m + 2
    scale := q - 2
    closed := m % 2 == 0 }

/-- Both sides of a comparison between `a * 2 ^ p` and `b * 10 ^ k`, as natural numbers. -/
private def align (a : Nat) (p : Int) (b : Nat) (k : Int) : Nat × Nat :=
  (a * twoTo p.toNat * tenTo (-k).toNat, b * tenTo k.toNat * twoTo (-p).toNat)

private def Interval.holds (i : Interval) (digits : Nat) (k : Int) : Bool :=
  let (low, x) := align i.low i.scale digits k
  let (high, y) := align i.high i.scale digits k
  if i.closed then low ≤ x && y ≤ high else low < x && y < high

/-- The neighbour of the value on the grid of multiples of `10 ^ k` that lies in the interval. -/
private def Interval.onGrid? (i : Interval) (k : Int) : Option Nat :=
  let (value, unit) := align i.value i.scale 1 k
  let below := value / unit
  let nearerAbove := unit < 2 * (value % unit) || (2 * (value % unit) == unit && below % 2 == 1)
  match i.holds below k, i.holds (below + 1) k with
  | true, true => some (if nearerAbove then below + 1 else below)
  | true, false => some below
  | false, true => some (below + 1)
  | false, false => none

/-- The least power of ten above `m * 2 ^ q`, as its exponent. -/
private def ceilingExponent (m : Nat) (q : Int) : Int :=
  let (num, den) := (m * twoTo q.toNat, twoTo (-q).toNat)
  if den ≤ num then Binary64.decimalLength (num / den)
  else 1 - (Binary64.decimalLength ((den + num - 1) / num - 1) : Int)

private def dropZeros : Nat → Nat → Int → Shortest
  | 0, digits, exponent => ⟨digits, exponent⟩
  | fuel + 1, digits, exponent =>
    if digits % 10 = 0 ∧ digits ≠ 0 then dropZeros fuel (digits / 10) (exponent + 1)
    else ⟨digits, exponent⟩

private def search (i : Interval) (ceiling : Int) : Nat → Int → Shortest
  | 0, size => ⟨(i.onGrid? (ceiling - size)).getD 0, ceiling - size⟩
  | more + 1, size =>
    match i.onGrid? (ceiling - size) with
    | some digits => dropZeros 20 digits (ceiling - size)
    | none => search i ceiling more (size + 1)

/-- The shortest decimal that reads back as the positive double `m * 2 ^ q`. -/
def shortest (m : Nat) (q : Int) : Shortest :=
  search (Interval.of m q) (ceilingExponent m q) 16 1

end LinkedApi.Decimal
