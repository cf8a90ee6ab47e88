import Tide.Number.Binary64
import Tide.Text.Bytes

/-!
# Reading numbers

The scanner only ever hands over digits and dots, but a number token may carry any text, and what
counts as a number is decided here: an optional sign, decimal digits with at most one point among
them and an optional exponent, or hexadecimal digits behind `0x` with an obligatory binary
exponent, or a name for infinity or for not-a-number. Underscores may stand between digits. The
value is the nearest double; a number too large for any is refused, one too small is zero.
-/
namespace Tide

namespace Numeric

def lower (b : UInt8) : UInt8 := if 'A'.toUInt8 ≤ b && b ≤ 'Z'.toUInt8 then b + 32 else b

def isDecimal (b : UInt8) : Bool := '0'.toUInt8 ≤ b && b ≤ '9'.toUInt8

def digit? (base : Nat) (b : UInt8) : Option Nat :=
  if isDecimal b then some (b.toNat - '0'.toNat)
  else if base = 16 ∧ 'a'.toUInt8 ≤ lower b ∧ lower b ≤ 'f'.toUInt8 then
    some ((lower b).toNat - 'a'.toNat + 10)
  else none

def isPoint (b : UInt8) : Bool := b = '.'.toUInt8

def isUnderscore (b : UInt8) : Bool := b = '_'.toUInt8

/-- What has been read of the digits of a number. -/
structure Digits where
  value : Nat := 0
  /-- How many of the digits stand behind the point. -/
  places : Nat := 0
  sawPoint : Bool := false
  sawDigit : Bool := false

/-- Digits, underscores and the first point; stops at anything else. -/
def readDigits (base : Nat) (d : Digits) : Bytes → Digits × Bytes
  | [] => (d, [])
  | b :: rest =>
    if isUnderscore b then readDigits base d rest
    else if isPoint b then
      if d.sawPoint then (d, b :: rest) else readDigits base { d with sawPoint := true } rest
    else match digit? base b with
      | some n =>
        readDigits base
          { d with
            value := d.value * base + n
            places := if d.sawPoint then d.places + 1 else d.places
            sawDigit := true } rest
      | none => (d, b :: rest)

/-- An exponent stops growing at five digits, where it has long decided the outcome. -/
def readExponentDigits (e : Nat) : Bytes → Nat × Bytes
  | [] => (e, [])
  | b :: rest =>
    if isUnderscore b then readExponentDigits e rest
    else match digit? 10 b with
      | some n => readExponentDigits (if e < 10000 then e * 10 + n else e) rest
      | none => (e, b :: rest)

def readSign : Bytes → Bool × Bytes
  | [] => (false, [])
  | b :: rest =>
    if b = '-'.toUInt8 then (true, rest)
    else if b = '+'.toUInt8 then (false, rest)
    else (false, b :: rest)

/-- The digits of an exponent behind an optional sign; there has to be one. -/
def readExponent? (source : Bytes) : Option (Int × Bytes) :=
  let (negative, digits) := readSign source
  match digits with
  | b :: rest =>
    if isDecimal b then
      let (e, rest) := readExponentDigits 0 (b :: rest)
      some (if negative then -(e : Int) else e, rest)
    else none
  | [] => none

/-- What the underscore rule remembers of the byte before. -/
inductive Before where
  | digit
  | underscore
  | other
deriving DecidableEq

def underscoresBetweenDigits (hexadecimal : Bool) : Before → Bytes → Bool
  | before, [] => before ≠ .underscore
  | before, b :: rest =>
    if (digit? (if hexadecimal then 16 else 10) b).isSome then
      underscoresBetweenDigits hexadecimal .digit rest
    else if isUnderscore b then
      before = .digit && underscoresBetweenDigits hexadecimal .underscore rest
    else before ≠ .underscore && underscoresBetweenDigits hexadecimal .other rest

/-- A base marker counts as a digit in front of an underscore. -/
def underscoresAllowed (unsigned : Bytes) : Bool :=
  match unsigned with
  | z :: m :: rest =>
    if z = '0'.toUInt8 ∧ lower m ∈ ['b'.toUInt8, 'o'.toUInt8, 'x'.toUInt8] then
      underscoresBetweenDigits (lower m = 'x'.toUInt8) .digit rest
    else underscoresBetweenDigits false .other unsigned
  | _ => underscoresBetweenDigits false .other unsigned

/-- Hexadecimal digits follow a marker that is itself followed by something. -/
def hexadecimalBody? : Bytes → Option Bytes
  | z :: m :: b :: rest =>
    if z = '0'.toUInt8 ∧ lower m = 'x'.toUInt8 then some (b :: rest) else none
  | _ => none

def readDecimal? (negative : Bool) (source : Bytes) : Option Float :=
  let (d, rest) := readDigits 10 {} source
  if d.sawDigit then
    match rest with
    | [] => Binary64.nearest? negative d.value 10 (-(d.places : Int))
    | b :: rest =>
      if lower b = 'e'.toUInt8 then
        match readExponent? rest with
        | some (e, []) => Binary64.nearest? negative d.value 10 (e - d.places)
        | _ => none
      else none
  else none

def readHexadecimal? (negative : Bool) (source : Bytes) : Option Float :=
  let (d, rest) := readDigits 16 {} source
  if d.sawDigit then
    match rest with
    | [] => none
    | b :: rest =>
      if lower b = 'p'.toUInt8 then
        match readExponent? rest with
        | some (e, []) => Binary64.nearest? negative d.value 2 (e - 4 * d.places)
        | _ => none
      else none
  else none

/-- Names are told apart without regard to case, and not-a-number takes no sign. -/
def readName? (source : Bytes) : Option Float :=
  let (negative, unsigned) := readSign source
  let word := unsigned.map lower
  if word = utf8 "inf" ∨ word = utf8 "infinity" then some (Binary64.infinity negative)
  else if source.map lower = utf8 "nan" then some (0.0 / 0.0)
  else none

end Numeric

def Number.read? (source : Bytes) : Option Float :=
  match Numeric.readName? source with
  | some x => some x
  | none =>
    let (negative, unsigned) := Numeric.readSign source
    if unsigned.any Numeric.isUnderscore && !Numeric.underscoresAllowed unsigned then none
    else match Numeric.hexadecimalBody? unsigned with
      | some body => Numeric.readHexadecimal? negative body
      | none => Numeric.readDecimal? negative unsigned

end Tide
