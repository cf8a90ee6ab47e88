import Tide.Eval.Machine

/-!
# Native functions

`print` writes its arguments on one line, `type` names the type of its argument, and `range`
counts from a start to an end that it leaves out. Counting adds the step again and again; a step
too small to change the number it is added to never gets anywhere, and the bound on the rounds is
what ends it then.
-/
namespace Tide

namespace Native

/-- The numbers reached from `x` in steps, as long as `going` holds. -/
def count (going : Float → Bool) (step : Float) : Nat → Float → List Value → Option (List Value)
  | 0, _, _ => none
  | rounds + 1, x, reached =>
    if going x then count going step rounds (x + step) (.ofNumber x :: reached)
    else some reached.reverse

/-- Counts towards the end, and not at all when the step leads away from it. -/
def rangeFrom (limit : Nat) (start stop step : Float) : Option (List Value) :=
  if start < stop && step > 0.0 then count (· < stop) step limit start []
  else if start > stop && step < 0.0 then count (· > stop) step limit start []
  else some []

def numbers? : Nat → List Value → Except NativeFault (List Float)
  | _, [] => .ok []
  | position, .number x _ :: rest => (x :: ·) <$> numbers? (position + 1) rest
  | position, value :: _ => .error (.notNumber position value.typeName)

def rangeArguments (arguments : List Value) : Except NativeFault (Float × Float × Float) :=
  if arguments.length = 3 then
    match numbers? 1 arguments with
    | .ok [start, stop, step] => .ok (start, stop, step)
    | .ok _ => .error (.threeArguments arguments.length)
    | .error fault => .error fault
  else .error (.threeArguments arguments.length)

def call (f : Native) (limit : Nat) (arguments : List Value) (span : Span) : Eval Value :=
  match f with
  | .print => do
    Eval.print (Value.renderAll (utf8 " ") arguments ++ utf8 "\n")
    return .null
  | .type =>
    match arguments with
    | [value] => return .ofText (utf8 value.typeName)
    | _ => Eval.fail (.native .type (.oneArgument arguments.length)) span
  | .range =>
    match rangeArguments arguments with
    | .error fault => Eval.fail (.native .range fault) span
    | .ok (start, stop, step) =>
      match rangeFrom limit start stop step with
      | none => throw .exhausted
      | some elements => return .array (← Eval.fresh) elements

end Native
end Tide
