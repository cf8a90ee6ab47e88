import Tide.Number.Binary64

/-!
# Powers

Whole exponents are computed by repeated squaring on a mantissa between a half and one, with the
binary exponent kept apart as an integer, so that only mantissas are rounded and the result is put
together once at the end. The square root has exponents of its own, and any other fraction goes
through the logarithm.
-/
namespace Tide

namespace Power

/-- `x = m * 2 ^ e` with `m` between a half and one in size, for a finite `x` other than zero. -/
def split (x : Float) : Float × Int :=
  match Binary64.ofFloat x with
  | .finite negative mantissa exponent =>
    let bits := mantissa.log2 + 1
    (Binary64.toFloat negative mantissa (-(bits : Int)), exponent + bits)
  | _ => (x, 0)

/-- `x * 2 ^ e`, rounded once. -/
def rescale (x : Float) (e : Int) : Float :=
  match Binary64.ofFloat x with
  | .finite negative mantissa exponent => Binary64.toFloat negative mantissa (exponent + e)
  | _ => x

/-- A product in the making: `value * 2 ^ exponent`. -/
structure Scaled where
  value : Float
  exponent : Int

def square (x : Scaled) : Scaled :=
  let value := x.value * x.value
  if value < 0.5 then ⟨value + value, 2 * x.exponent - 1⟩ else ⟨value, 2 * x.exponent⟩

/-- Multiplies `result` by `base ^ n`, one bit of `n` at a time. An exponent that has grown out of
all proportion decides the outcome and ends the loop. -/
def multiply (result base : Scaled) (n : Nat) : Scaled :=
  if n = 0 then result
  else if base.exponent < -4096 ∨ 4096 < base.exponent then
    { result with exponent := result.exponent + base.exponent }
  else
    let result :=
      if n % 2 = 1 then ⟨result.value * base.value, result.exponent + base.exponent⟩ else result
    multiply result (square base) (n / 2)
termination_by n

/-- The whole part and the fraction of a size, exactly. -/
def parts (x : Float) : Nat × Float :=
  match Binary64.ofFloat x with
  | .finite _ mantissa exponent =>
    if exponent < 0 then
      let unit := Nat.pow 2 (-exponent).toNat
      (mantissa / unit, Binary64.toFloat false (mantissa % unit) exponent)
    else (mantissa * Nat.pow 2 exponent.toNat, 0.0)
  | _ => (0, 0.0)

def isOddWhole (y : Float) : Bool :=
  let (whole, fraction) := parts y
  fraction == 0.0 && whole % 2 = 1 && whole < Nat.pow 2 53

def isNegative (x : Float) : Bool :=
  match Binary64.ofFloat x with
  | .finite negative .. | .infinite negative => negative
  | .nan => false

/-- Whether the size grows with the exponent when the exponent is beyond all bounds. -/
def limit (x : Float) (positive : Bool) : Float :=
  if x == -1.0 then 1.0
  else if (x.abs < 1.0) = positive then 0.0
  else Binary64.infinity false

def zeroTo (x y : Float) : Float :=
  let odd := isNegative x && isOddWhole y
  if y < 0.0 then Binary64.infinity odd else if odd then x else 0.0

def infinityTo (x y : Float) : Float :=
  if isNegative x then zeroTo (1.0 / x) (-y)
  else if y < 0.0 then 0.0 else Binary64.infinity false

/-- A finite base other than zero and one, and a finite exponent other than zero and one. -/
def general (x y : Float) : Float :=
  let (whole, fraction) := parts y
  if fraction != 0.0 && x < 0.0 then 0.0 / 0.0
  else if whole ≥ Nat.pow 2 63 then limit x (y > 0.0)
  else
    let (whole, fraction) :=
      if fraction > 0.5 then (whole + 1, fraction - 1.0) else (whole, fraction)
    let start := if fraction == 0.0 then 1.0 else (fraction * x.log).exp
    let (m, e) := split x
    let product := multiply ⟨start, 0⟩ ⟨m, e⟩ whole
    if y < 0.0 then rescale (1.0 / product.value) (-product.exponent)
    else rescale product.value product.exponent

end Power

def Number.power (x y : Float) : Float :=
  if y == 0.0 || x == 1.0 then 1.0
  else if y == 1.0 then x
  else match Binary64.ofFloat x, Binary64.ofFloat y with
    | .nan, _ => 0.0 / 0.0
    | _, .nan => 0.0 / 0.0
    | _, .infinite negative =>
      if x == 0.0 then Power.zeroTo x y else Power.limit x (!negative)
    | .infinite _, _ => Power.infinityTo x y
    | _, _ =>
      if x == 0.0 then Power.zeroTo x y
      else if y == 0.5 then x.sqrt
      else if y == -0.5 then 1.0 / x.sqrt
      else Power.general x y

end Tide
