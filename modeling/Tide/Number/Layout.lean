import Tide.Number.Shortest
import Tide.Text.Bytes

/-!
# The text of a number

One choice of digits, laid out in three ways. The language itself never writes an exponent. The two
data formats do for very small and very large numbers, and differ in where that begins and in how
many digits the exponent has.
-/
namespace Tide

structure NumberLayout where
  /-- Whether a number whose leading digit counts `10 ^ k` is written without an exponent. -/
  positional : Int → Bool
  exponentWidth : Nat
  nan : String
  positiveInfinity : String
  negativeInfinity : String

namespace NumberLayout

/-- How the language prints numbers. -/
def plain : NumberLayout where
  positional _ := true
  exponentWidth := 1
  nan := "NaN"
  positiveInfinity := "+Inf"
  negativeInfinity := "-Inf"

/-- Exponents below a millionth and from `10 ^ 21` on. -/
def json : NumberLayout := { plain with positional := fun k => -6 ≤ k ∧ k < 21 }

/-- Exponents, of two digits or more, below a ten-thousandth and from a million on. -/
def yaml : NumberLayout where
  positional k := -4 ≤ k ∧ k < 6
  exponentWidth := 2
  nan := ".nan"
  positiveInfinity := ".inf"
  negativeInfinity := "-.inf"

def zeros (n : Nat) : Bytes := List.replicate n '0'.toUInt8

/-- Digits around a point, without a point when nothing stands behind it. -/
def positionalText (d : Decimal) : Bytes :=
  let digits := Bytes.ofNat d.significand
  if d.exponent ≥ 0 then digits ++ (if d.significand = 0 then [] else zeros d.exponent.toNat)
  else
    let places := (-d.exponent).toNat
    let padded := zeros (places + 1 - digits.length) ++ digits
    padded.take (padded.length - places) ++ utf8 "." ++ padded.drop (padded.length - places)

def exponentText (width : Nat) (d : Decimal) : Bytes :=
  let digits := Bytes.ofNat d.significand
  let k := d.exponent + digits.length - 1
  let size := Bytes.ofNat k.natAbs
  let fraction := if digits.length ≤ 1 then [] else utf8 "." ++ digits.drop 1
  digits.take 1 ++ fraction ++ utf8 (if k < 0 then "e-" else "e+") ++
    zeros (width - size.length) ++ size

def decimalText (layout : NumberLayout) (d : Decimal) : Bytes :=
  let k := d.exponent + (Bytes.ofNat d.significand).length - 1
  if d.significand = 0 ∨ layout.positional k then positionalText d
  else exponentText layout.exponentWidth d

def render (layout : NumberLayout) (x : Float) : Bytes :=
  match Binary64.ofFloat x with
  | .nan => utf8 layout.nan
  | .infinite false => utf8 layout.positiveInfinity
  | .infinite true => utf8 layout.negativeInfinity
  | .finite negative mantissa exponent =>
    (if negative then utf8 "-" else []) ++ layout.decimalText (.shortest mantissa exponent)

end NumberLayout

/-- A number as programs print it. -/
def Number.render (x : Float) : Bytes := NumberLayout.plain.render x

end Tide
