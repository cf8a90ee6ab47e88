/-!
# Doubles as exact numbers

Numbers are IEEE doubles. Whatever is decided about one digit by digit (its text, its reading, its
whole part, a remainder) is decided on the exact value `mantissa * 2 ^ exponent`, in integer
arithmetic, and only then rounded back, once.
-/
namespace Tide

inductive Binary64 where
  | nan
  | infinite (negative : Bool)
  | finite (negative : Bool) (mantissa : Nat) (exponent : Int)
deriving DecidableEq, Repr

namespace Binary64

def ofBits (bits : Nat) : Binary64 :=
  let negative : Bool := bits / Nat.pow 2 63 % 2 = 1
  let biased : Nat := bits / Nat.pow 2 52 % Nat.pow 2 11
  let fraction : Nat := bits % Nat.pow 2 52
  if biased = 2047 then if fraction = 0 then .infinite negative else .nan
  else if biased = 0 then .finite negative fraction (-1074)
  else .finite negative (fraction + Nat.pow 2 52) ((biased : Int) - 1075)

def ofFloat (x : Float) : Binary64 := ofBits x.toBits.toNat

/-- The integer nearest to `num / den`, a half going to the even side. -/
def roundHalfEven (num den : Nat) : Nat :=
  let q := num / den
  let r := num % den
  if 2 * r > den ∨ 2 * r = den ∧ q % 2 = 1 then q + 1 else q

/-- `num / den` in units of `2 ^ exponent`, as a fraction. -/
def inUnits (num den : Nat) (exponent : Int) : Nat × Nat :=
  if exponent < 0 then (num * Nat.pow 2 (-exponent).toNat, den)
  else (num, den * Nat.pow 2 exponent.toNat)

/-- The least exponent at which `num / den` has at most 53 bits before the point, but not below
the exponent of the subnormal numbers. -/
def unitExponent (num den : Nat) : Int :=
  let estimate : Int := (num.log2 : Int) - (den.log2 : Int) - 53
  let (n, d) := inUnits num den estimate
  let exact := if n < d * Nat.pow 2 53 then estimate else estimate + 1
  max exact (-1074)

/-- The bits of the positive double nearest to `num / den`. A mantissa that rounds up to `2 ^ 53`
carries into the exponent field, which is the right result; from `0x7FF0000000000000` on the number
was too large. -/
def nearestBits (num den : Nat) : Nat :=
  if num = 0 then 0
  else
    let exponent := unitExponent num den
    let (n, d) := inUnits num den exponent
    let mantissa := roundHalfEven n d
    if mantissa < Nat.pow 2 52 then mantissa
    else (exponent + 1075).toNat * Nat.pow 2 52 + (mantissa - Nat.pow 2 52)

def infinityBits : Nat := 0x7FF0000000000000

def signBit (negative : Bool) : Nat := if negative then Nat.pow 2 63 else 0

def floatOfBits (negative : Bool) (bits : Nat) : Float :=
  Float.ofBits (signBit negative + bits).toUInt64

def infinity (negative : Bool) : Float := floatOfBits negative infinityBits

/-- The double nearest to `± value * base ^ exponent`, or nothing when that is beyond the largest
one. An exponent that decides the matter alone is not multiplied out. -/
def nearest? (negative : Bool) (value base : Nat) (exponent : Int) : Option Float :=
  let size : Int := value.log2 + exponent * base.log2
  if value = 0 ∨ exponent < 0 ∧ size < -1200 then some (floatOfBits negative 0)
  else if exponent > 0 ∧ size > 1100 then none
  else
    let bits :=
      if exponent < 0 then nearestBits value (Nat.pow base (-exponent).toNat)
      else nearestBits (value * Nat.pow base exponent.toNat) 1
    if bits < infinityBits then some (floatOfBits negative bits) else none

/-- `± mantissa * 2 ^ exponent`, rounded once and going to infinity beyond the largest double. -/
def toFloat (negative : Bool) (mantissa : Nat) (exponent : Int) : Float :=
  (nearest? negative mantissa 2 exponent).getD (infinity negative)

end Binary64

namespace Number

/-- The value as a natural number, if it is one; a negative zero is zero. -/
def toNat? (x : Float) : Option Nat :=
  match Binary64.ofFloat x with
  | .finite negative mantissa exponent =>
    let (n, d) := if exponent < 0 then (mantissa, Nat.pow 2 (-exponent).toNat)
      else (mantissa * Nat.pow 2 exponent.toNat, 1)
    if n % d = 0 ∧ (negative = false ∨ n = 0) then some (n / d) else none
  | _ => none

/-- The largest whole number not above `x`; zeros keep their sign. -/
def floor (x : Float) : Float :=
  match Binary64.ofFloat x with
  | .finite negative mantissa exponent =>
    if exponent < 0 then
      let unit := Nat.pow 2 (-exponent).toNat
      let whole := if negative then (mantissa + unit - 1) / unit else mantissa / unit
      Binary64.toFloat negative whole 0
    else x
  | _ => x

/-- The exact remainder of `x / y` with the sign of `x`. -/
def remainder (x y : Float) : Float :=
  match Binary64.ofFloat x, Binary64.ofFloat y with
  | .finite negative m e, .finite _ n f =>
    if n = 0 then 0.0 / 0.0
    else
      let unit := min e f
      let rest := m * Nat.pow 2 (e - unit).toNat % (n * Nat.pow 2 (f - unit).toNat)
      Binary64.toFloat negative rest unit
  | .finite .., .infinite _ => x
  | _, _ => 0.0 / 0.0

end Number
end Tide
