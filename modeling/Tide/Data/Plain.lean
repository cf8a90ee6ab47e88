import Tide.Number.Reading

/-!
# What a bare word stands for

In YAML a word without quotes may mean something other than itself: nothing at all, a truth value,
a number or a date. Reading a settings file has to know which, and writing has to put quotes
around a string that would be misread.
-/
namespace Tide

/-- What a bare word is taken for. -/
inductive PlainTag where
  | null
  | bool
  | int
  | float
  | timestamp
  | str
deriving DecidableEq, Repr

def PlainTag.name : PlainTag → String
  | .null => "!!null"
  | .bool => "!!bool"
  | .int => "!!int"
  | .float => "!!float"
  | .timestamp => "!!timestamp"
  | .str => "!!str"

namespace Plain

def isIn (s : Bytes) (words : List String) : Bool := words.any fun word => utf8 word == s

def isTrue (s : Bytes) : Bool := isIn s ["true", "True", "TRUE"]

def isFalse (s : Bytes) : Bool := isIn s ["false", "False", "FALSE"]

def isNull (s : Bytes) : Bool := isIn s ["", "~", "null", "Null", "NULL"]

/-- Words that older readers take for truth values. -/
def isOldTrue (s : Bytes) : Bool := isIn s ["y", "Y", "yes", "Yes", "YES", "on", "On", "ON"]

def isOldFalse (s : Bytes) : Bool := isIn s ["n", "N", "no", "No", "NO", "off", "Off", "OFF"]

def isSpecialFloat (s : Bytes) : Bool :=
  isIn s [".nan", ".NaN", ".NAN", ".inf", ".Inf", ".INF", "+.inf", "+.Inf", "+.INF", "-.inf",
    "-.Inf", "-.INF"]

def isDigit (b : UInt8) : Bool := Numeric.isDecimal b

def isSign (b : UInt8) : Bool := b = '+'.toUInt8 || b = '-'.toUInt8

/-! ### Whole numbers -/

def digitIn? (base : Nat) (b : UInt8) : Option Nat :=
  match Numeric.digit? 16 b with
  | some n => if n < base then some n else none
  | none => none

def natOf? (base : Nat) (digits : Bytes) : Option Nat :=
  if digits.isEmpty then none
  else digits.foldlM (fun n b => (digitIn? base b).map (n * base + ·)) 0

/-- Digits behind a marker for their base; a leading zero alone marks octal. -/
def magnitude? (s : Bytes) : Option Nat :=
  match s with
  | z :: m :: rest =>
    if z = '0'.toUInt8 then
      let marker := Numeric.lower m
      if marker = 'x'.toUInt8 then natOf? 16 rest
      else if marker = 'b'.toUInt8 then natOf? 2 rest
      else if marker = 'o'.toUInt8 then natOf? 8 rest
      else natOf? 8 (m :: rest)
    else natOf? 10 s
  | _ => natOf? 10 s

/-- Fits in 64 bits, signed or, without a sign, unsigned. -/
def isInteger (s : Bytes) : Bool :=
  let (negative, digits) := Numeric.readSign s
  match magnitude? digits with
  | some n =>
    if negative then n ≤ Nat.pow 2 63
    else n < Nat.pow 2 63 || digits.length = s.length && n < Nat.pow 2 64
  | none => false

/-! ### Fractions -/

def dropDigits (s : Bytes) : Bytes := s.dropWhile isDigit

/-- An exponent that runs to the end, or nothing at all. -/
def isExponent : Bytes → Bool
  | [] => true
  | e :: rest =>
    let digits := (Numeric.readSign rest).2
    Numeric.lower e = 'e'.toUInt8 && !digits.isEmpty && digits.all isDigit

def isDecimalShape (s : Bytes) : Bool :=
  match (Numeric.readSign s).2 with
  | [] => false
  | b :: rest =>
    if Numeric.isPoint b then
      match rest with
      | d :: rest => isDigit d && isExponent (dropDigits rest)
      | [] => false
    else if isDigit b then
      match dropDigits rest with
      | p :: rest => if Numeric.isPoint p then isExponent (dropDigits rest)
        else isExponent (p :: rest)
      | [] => true
    else false

/-! ### Dates -/

def takeNumber (s : Bytes) : Nat × Nat × Bytes :=
  let digits := s.takeWhile isDigit
  (digits.length, (natOf? 10 digits).getD 0, s.dropWhile isDigit)

def expectByte (c : Char) : Bytes → Option Bytes
  | b :: rest => if b = c.toUInt8 then some rest else none
  | [] => none

/-- One or two digits, from `least` to `most`. -/
def field? (least most : Nat) (s : Bytes) : Option (Nat × Bytes) :=
  let (width, n, rest) := takeNumber s
  if (width = 1 ∨ width = 2) ∧ least ≤ n ∧ n ≤ most then some (n, rest) else none

def isLeap (year : Nat) : Bool := year % 4 = 0 && (year % 100 != 0 || year % 400 = 0)

def daysIn (year month : Nat) : Nat :=
  if month = 2 then (if isLeap year then 29 else 28)
  else if month ∈ [4, 6, 9, 11] then 30
  else 31

/-- Year, month and day; the rest of the text is returned. -/
def date? (s : Bytes) : Option Bytes := do
  let (width, year, rest) := takeNumber s
  guard (width = 4)
  let (month, rest) ← field? 1 12 (← expectByte '-' rest)
  let (_, rest) ← field? 1 (daysIn year month) (← expectByte '-' rest)
  return rest

/-- Fractions of a second are as long as they like. -/
def dropFraction (s : Bytes) : Option Bytes :=
  match s with
  | p :: d :: rest =>
    if Numeric.isPoint p then if isDigit d then some (dropDigits rest) else none
    else some s
  | [p] => if Numeric.isPoint p then none else some s
  | [] => some s

def clock? (s : Bytes) : Option Bytes := do
  let (_, rest) ← field? 0 23 s
  let (_, rest) ← field? 0 59 (← expectByte ':' rest)
  let (_, rest) ← field? 0 59 (← expectByte ':' rest)
  dropFraction rest

/-- `Z`, or a signed offset in hours and minutes. -/
def isZone : Bytes → Bool
  | [z] => z = 'Z'.toUInt8
  | [s, a, b, c, d, e] =>
    isSign s && [a, b, d, e].all isDigit && c = ':'.toUInt8 &&
      (natOf? 10 [a, b]).getD 99 ≤ 24 && (natOf? 10 [d, e]).getD 99 < 60
  | _ => false

def isTimestamp (s : Bytes) : Bool :=
  match date? s with
  | none => false
  | some [] => true
  | some (b :: rest) =>
    match clock? rest with
    | none => false
    | some zone =>
      if b = ' '.toUInt8 then zone.isEmpty
      else (b = 'T'.toUInt8 || b = 't'.toUInt8) && isZone zone

/-! ### The decision -/

/-- The first byte says what a word can be at all. -/
def tag (s : Bytes) : PlainTag :=
  if isNull s then .null
  else if isTrue s || isFalse s then .bool
  else if isSpecialFloat s then .float
  else match s with
    | [] => .null
    | b :: _ =>
      if Numeric.isPoint b then if (Number.read? s).isSome then .float else .str
      else if isDigit b || isSign b then
        let digits := s.filter fun b => !Numeric.isUnderscore b
        if isTimestamp s then .timestamp
        else if isInteger digits then .int
        else if isDecimalShape digits && (Number.read? digits).isSome then .float
        else .str
      else .str

/-- Numbers to the base sixty, which only older readers know: `12:30:45`. -/
def isSexagesimal (s : Bytes) : Bool :=
  let digits := (Numeric.readSign s).2
  let inRun := fun b => isDigit b || Numeric.isUnderscore b
  match digits with
  | b :: rest => isDigit b && groups 0 (rest.dropWhile inRun) (rest.length + 1)
  | [] => false
where
  groups (seen : Nat) (s : Bytes) : Nat → Bool
    | 0 => false
    | limit + 1 =>
      match s with
      | [] => 0 < seen
      | b :: rest =>
        if b = ':'.toUInt8 then
          let (width, n, later) := takeNumber rest
          (width = 1 || width = 2) && n < 60 && groups (seen + 1) later limit
        else 0 < seen && Numeric.isPoint b &&
          rest.all fun b => isDigit b || Numeric.isUnderscore b

/-- Whether a string can be written without quotes and still be read as a string. -/
def isSafe (s : Bytes) : Bool :=
  tag s = .str && !isOldTrue s && !isOldFalse s && !isSexagesimal s

end Plain
end Tide
