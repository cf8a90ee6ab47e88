import Tide.Number.Binary64

/-!
# Shortest digits

A double stands for every real number that rounds to it. Its text uses the fewest decimal digits
that fall in that interval, and of two candidates with equally few digits the one nearer to the
double itself, or the even one when both are equally near.

The interval reaches half way to the neighbouring doubles and includes its ends when the mantissa
is even. Below a power of two the lower neighbour is only half as far away. Everything is measured
in quarters of a unit of the mantissa, so that all ends are whole numbers.
-/
namespace Tide

/-- `significand * 10 ^ exponent`. -/
structure Decimal where
  significand : Nat
  exponent : Int
deriving DecidableEq, Repr

namespace Shortest

/-- The numbers that read as one double, in units of `2 ^ exponent`. -/
structure Interval where
  low : Nat
  value : Nat
  high : Nat
  closed : Bool
  exponent : Int

def interval (mantissa : Nat) (exponent : Int) : Interval where
  low := 4 * mantissa - (if mantissa = Nat.pow 2 52 ∧ exponent > -1074 then 1 else 2)
  value := 4 * mantissa
  high := 4 * mantissa + 2
  closed := mantissa % 2 = 0
  exponent := exponent - 2

/-- Both sides of a comparison of `a * 2 ^ binary` with `b * 10 ^ decimal`, as whole numbers. -/
def scale (a : Nat) (binary : Int) (b : Nat) (decimal : Int) : Nat × Nat :=
  (a * Nat.pow 2 binary.toNat * Nat.pow 10 (-decimal).toNat,
    b * Nat.pow 2 (-binary).toNat * Nat.pow 10 decimal.toNat)

/-- The exponent of the leading decimal digit of `value * 2 ^ exponent`. The logarithm of the
binary size gives it up to two, and the powers of ten themselves settle it. -/
def leading (value : Nat) (exponent : Int) : Int :=
  let estimate := ((value.log2 : Int) + exponent) * 30103 / 100000 - 1
  let reaches (k : Int) : Bool := let (v, p) := scale value exponent 1 k; p ≤ v
  if reaches (estimate + 3) then estimate + 3
  else if reaches (estimate + 2) then estimate + 2
  else if reaches (estimate + 1) then estimate + 1
  else estimate

def Interval.has (i : Interval) (digits : Nat) (exponent : Int) : Bool :=
  let (low, d) := scale i.low i.exponent digits exponent
  let (high, _) := scale i.high i.exponent digits exponent
  if i.closed then low ≤ d && d ≤ high else low < d && d < high

/-- The better of the two neighbours on the grid of multiples of `10 ^ exponent`. -/
def onGrid? (i : Interval) (exponent : Int) : Option Nat :=
  let (v, unit) := scale i.value i.exponent 1 exponent
  let below := v / unit
  match i.has below exponent, i.has (below + 1) exponent with
  | true, true =>
    let rest := v % unit
    if 2 * rest > unit ∨ 2 * rest = unit ∧ below % 2 = 1 then some (below + 1) else some below
  | true, false => some below
  | false, true => some (below + 1)
  | false, false => none

def search (i : Interval) : Nat → Int → Decimal
  | 0, exponent =>
    let (v, unit) := scale i.value i.exponent 1 exponent
    ⟨v / unit, exponent⟩
  | more + 1, exponent =>
    match onGrid? i exponent with
    | some digits => ⟨digits, exponent⟩
    | none => search i more (exponent - 1)

/-- Zeros at the end carry nothing. -/
def trim : Nat → Decimal → Decimal
  | 0, d => d
  | more + 1, d =>
    if d.significand ≠ 0 ∧ d.significand % 10 = 0 then
      trim more ⟨d.significand / 10, d.exponent + 1⟩
    else d

end Shortest

/-- Seventeen digits always suffice. -/
def Decimal.shortest (mantissa : Nat) (exponent : Int) : Decimal :=
  if mantissa = 0 then ⟨0, 0⟩
  else
    let i := Shortest.interval mantissa exponent
    Shortest.trim 17 (Shortest.search i 17 (Shortest.leading i.value i.exponent))

end Tide
