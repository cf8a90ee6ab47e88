import Tide.Scope.Store
import Tide.Value.Operator

/-!
# The machine programs run on

A run changes three things: the scopes, the text printed so far, and the number under which the
next collection or function is made. A failing run leaves behind what it changed before it failed,
so the state is part of the outcome either way.

There are two ways to fail that a program can see, a runtime fault and its own `raise`, and one
that it cannot: evaluation is bounded in depth, and `exhausted` says that the bound was met before
there was an answer.
-/
namespace Tide

inductive NativeFault where
  | oneArgument (got : Nat)
  | threeArguments (got : Nat)
  /-- Arguments are counted from one. -/
  | notNumber (position : Nat) (got : String)
deriving DecidableEq, Repr

def NativeFault.text : NativeFault → Bytes
  | .oneArgument got => utf8 "expects 1 argument, got " ++ Bytes.ofNat got
  | .threeArguments got =>
    utf8 "expects 3 arguments (start, end, step), got " ++ Bytes.ofNat got
  | .notNumber position got =>
    utf8 "argument " ++ Bytes.ofNat position ++ utf8 " must be a number, got " ++ utf8 got

inductive RuntimeFault where
  | scope (fault : ScopeFault)
  | native (f : Native) (fault : NativeFault)
  | operator (fault : OperatorFault)
  | unexpectedNode
  | returnOutsideFunction
  | invalidTarget
  | conditionNotBool (got : String)
  | notCallable (got : String)
  | wrongArity (name : Bytes) (expected got : Nat)
  | propertyNotName
  | keyNotText (got : String)
  | indexNotNumber (got : String)
  | indexOutOfRange (index : Float) (length : Nat)
  | noMembers (got : String)

namespace RuntimeFault

def text : RuntimeFault → Bytes
  | .scope fault => fault.text
  | .native f fault => utf8 f.name ++ utf8 ": " ++ fault.text
  | .operator fault => fault.text
  | .unexpectedNode => utf8 "unexpected node type: ast.NullLit"
  | .returnOutsideFunction => utf8 "return outside of function"
  | .invalidTarget => utf8 "invalid assignment target"
  | .conditionNotBool got => utf8 "if condition must be a bool, got " ++ utf8 got
  | .notCallable got => utf8 "cannot call value of type " ++ utf8 got
  | .wrongArity name expected got =>
    name ++ utf8 " expects " ++ Bytes.ofNat expected ++ utf8 " argument(s), got " ++
      Bytes.ofNat got
  | .propertyNotName => utf8 "property name must be an identifier"
  | .keyNotText got => utf8 "object key must be a string, got " ++ utf8 got
  | .indexNotNumber got => utf8 "array index must be a number, got " ++ utf8 got
  | .indexOutOfRange index length =>
    utf8 "index " ++ Number.render index ++ utf8 " out of range for array of length " ++
      Bytes.ofNat length
  | .noMembers got => utf8 "cannot access member of " ++ utf8 got

end RuntimeFault

inductive Failure where
  | runtime (fault : RuntimeFault) (span : Span)
  | raised (message : Bytes) (span : Span)
  | exhausted

namespace Failure

def span : Failure → Span
  | .runtime _ span => span
  | .raised _ span => span
  | .exhausted => .zero

def text : Failure → Bytes
  | .runtime fault _ => fault.text
  | .raised message _ => message
  | .exhausted => utf8 "evaluation did not finish"

def render : Failure → Bytes
  | .runtime fault span =>
    utf8 "runtime error at " ++ span.start.render ++ utf8 ": " ++ fault.text
  | .raised message span => utf8 "raised at " ++ span.start.render ++ utf8 ": " ++ message
  | .exhausted => utf8 "evaluation did not finish"

end Failure

structure Machine where
  store : Store
  output : Bytes
  nextIdentity : Nat

def Machine.initial : Machine := ⟨.initial, [], 0⟩

abbrev Eval := EStateM Failure Machine

namespace Eval

def fail {α : Type} (fault : RuntimeFault) (span : Span) : Eval α := throw (.runtime fault span)

/-- A number that no collection or function has yet. -/
def fresh : Eval Nat :=
  modifyGet fun m => (m.nextIdentity, { m with nextIdentity := m.nextIdentity + 1 })

def print (text : Bytes) : Eval Unit := modify fun m => { m with output := m.output ++ text }

def lookup (s : ScopeId) (name : Bytes) (span : Span) : Eval Value := do
  match (← get).store.lookup s name with
  | .ok value => return value
  | .error fault => fail (.scope fault) span

/-- Makes a change to the store, unless something forbids it. -/
def updateStore (fault? : Store → Option ScopeFault) (change : Store → Store) (span : Span) :
    Eval Unit :=
  fun ⟨store, output, next⟩ =>
    match fault? store with
    | some fault => .error (.runtime (.scope fault) span) ⟨store, output, next⟩
    | none => .ok () ⟨change store, output, next⟩

def declare (s : ScopeId) (name : Bytes) (value : Value) (constant : Bool) (span : Span) :
    Eval Unit :=
  updateStore (·.declareFault? s name) (·.update s (·.declare name value constant)) span

def assign (s : ScopeId) (name : Bytes) (value : Value) (span : Span) : Eval Unit :=
  updateStore (·.assignFault? s name) (·.updateHome s name (·.assign name value)) span

def delete (s : ScopeId) (name : Bytes) (span : Span) : Eval Unit :=
  updateStore (·.deleteFault? s name) (·.updateHome s name (·.delete name)) span

def child (parent : ScopeId) : Eval ScopeId :=
  fun ⟨store, output, next⟩ =>
    let (s, store) := store.child parent
    .ok s ⟨store, output, next⟩

end Eval
end Tide
