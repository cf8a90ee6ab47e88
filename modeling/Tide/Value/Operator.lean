import Tide.Number.Power
import Tide.Token.Kind
import Tide.Value.Basic

/-!
# Operators on values

Arithmetic and comparison do not fail on operands they have no meaning for; the result is null.
What does fail is a division by zero, a logical operator on anything but two truth values, and an
operator that does not belong to its family, which no source text can spell.
-/
namespace Tide

inductive OperatorFault where
  | divisionByZero
  | unknownArithmetic (operator : Kind)
  | unknownComparison (operator : Kind)
  | unknownLogical (operator : Kind)
  | notBooleans (operator : Kind) (left right : String)
deriving DecidableEq, Repr

namespace OperatorFault

def text : OperatorFault → Bytes
  | .divisionByZero => utf8 "division by zero"
  | .unknownArithmetic operator =>
    utf8 "unknown arithmetic operator " ++ Bytes.quoted operator.render
  | .unknownComparison operator =>
    utf8 "unknown comparison operator " ++ Bytes.quoted operator.render
  | .unknownLogical operator => utf8 "unknown logical operator " ++ Bytes.quoted operator.render
  | .notBooleans operator left right =>
    utf8 "operands of " ++ Bytes.quoted operator.render ++ utf8 " must be booleans, got " ++
      utf8 left ++ utf8 " and " ++ utf8 right

end OperatorFault

namespace Value

def divide (divisor : Float) (quotient : Float) : Except OperatorFault Value :=
  if divisor == 0.0 then .error .divisionByZero else .ok (.ofNumber quotient)

def arithmeticNumbers (operator : Kind) (a b : Float) : Except OperatorFault Value :=
  match operator with
  | .symbol .plus => .ok (.ofNumber (a + b))
  | .symbol .minus => .ok (.ofNumber (a - b))
  | .symbol .star => .ok (.ofNumber (a * b))
  | .symbol .caret => .ok (.ofNumber (Number.power a b))
  | .symbol .slash => divide b (a / b)
  | .symbol .percent => divide b (Number.remainder a b)
  | .symbol .tilde => divide b (Number.floor (a / b))
  | _ => .error (.unknownArithmetic operator)

def arithmetic (operator : Kind) : Value → Value → Except OperatorFault Value
  | .number a _, .number b _ => arithmeticNumbers operator a b
  | _, _ => .ok .null

/-- Any operator but the first two is taken for exclusive or. -/
def combine (operator : Kind) (a b : Bool) : Bool :=
  match operator with
  | .keyword .and => a && b
  | .keyword .or => a || b
  | _ => a != b

def truthy : Value → Bool
  | .bool b => b
  | _ => false

def compareNumbers (operator : Kind) (a b : Float) : Except OperatorFault Value :=
  match operator with
  | .symbol .lt => .ok (.bool (a < b))
  | .symbol .gt => .ok (.bool (a > b))
  | .fused .lte => .ok (.bool (a ≤ b))
  | .fused .gte => .ok (.bool (a ≥ b))
  | .fused .eq => .ok (.bool (a == b))
  | .fused .neq => .ok (.bool (a != b))
  | _ => .error (.unknownComparison operator)

/-- Equality of two strings, two truth values or two nulls; nothing else has any. -/
def equal? : Value → Value → Option Bool
  | .text a _, .text b _ => some (a == b)
  | .bool a, .bool b => some (a == b)
  | .null, .null => some true
  | _, _ => none

def ofEqual (negate : Bool) (equal : Option Bool) : Value :=
  match equal with
  | some b => .bool (b != negate)
  | none => .null

/-- A logical operator in a comparison combines its own result with itself, which for exclusive or
is never true. -/
def compare (operator : Kind) (left right : Value) : Except OperatorFault Value :=
  match operator with
  | .keyword .and | .keyword .or | .keyword .xor =>
    let once := combine operator left.truthy right.truthy
    .ok (.bool (combine operator once once))
  | _ =>
    match left, right with
    | .number a _, .number b _ => compareNumbers operator a b
    | _, _ =>
      match operator with
      | .fused .eq => .ok (ofEqual false (equal? left right))
      | .fused .neq => .ok (ofEqual true (equal? left right))
      | _ => .ok .null

/-- Equal scalars, or the very same collection or function. -/
def identical : Value → Value → Bool
  | .null, .null => true
  | .bool a, .bool b => a == b
  | .number a _, .number b _ => a == b
  | .text a _, .text b _ => a == b
  | .native f, .native g => f = g
  | .array a _, .array b _ => a = b
  | .object a _, .object b _ => a = b
  | .function a .., .function b .. => a = b
  | .lambda a .., .lambda b .. => a = b
  | .returned a _, .returned b _ => a = b
  | _, _ => false

def logical (operator : Kind) (left right : Value) : Except OperatorFault Value :=
  match operator with
  | .keyword .is => .ok (.bool (identical left right))
  | _ =>
    match left, right with
    | .bool a, .bool b =>
      match operator with
      | .keyword .and | .keyword .or | .keyword .xor => .ok (.bool (combine operator a b))
      | _ => .error (.unknownLogical operator)
    | _, _ => .error (.notBooleans operator left.typeName right.typeName)

/-- Both operands are known before the operator is looked at: nothing is left unevaluated. -/
def operate : Family → Kind → Value → Value → Except OperatorFault Value
  | .arithmetic => arithmetic
  | .comparison => compare
  | .logical => logical

end Value
end Tide
