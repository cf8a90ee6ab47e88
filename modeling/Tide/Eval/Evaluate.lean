import Tide.Eval.Native

/-!
# Evaluation

One definition per construct, each given the evaluation of smaller depth for its parts; `eval`
ties the knot. Operands, elements, properties and arguments are evaluated from left to right, and
the arguments of a call before the function that is called. A body or a choice runs in the scope
it stands in. Only a call opens a scope, below the one the function was made in.

A `return` produces a marked value. A body stops at it and passes it on; a function call takes the
mark off; anywhere else it would be an ordinary value.
-/
namespace Tide

namespace Eval

section

variable (eval : Node → ScopeId → Eval Value) (limit : Nat)

def all (s : ScopeId) : List Node → Eval (List Value)
  | [] => return []
  | node :: rest => do
    let value ← eval node s
    let values ← all s rest
    return value :: values

/-- The value of the last statement, or of the first that returns. -/
def body (s : ScopeId) (result : Value) : List Node → Eval Value
  | [] => return result
  | node :: rest => do
    match ← eval node s with
    | .returned identity value => return .returned identity value
    | value => body s value rest

/-- The value of the last statement; none of them may return. -/
def program (s : ScopeId) (result : Value) : List Node → Eval Value
  | [] => return result
  | node :: rest => do
    match ← eval node s with
    | .returned .. => fail .returnOutsideFunction node.span
    | value => program s value rest

def declaration (s : ScopeId) (span : Span) (name : Bytes) (constant : Bool) (value : Node) :
    Eval Value := do
  let value ← if value.isMissing then pure .null else eval value s
  declare s name value constant span
  return value

def function (s : ScopeId) (span : Span) (name : Bytes) (params : List Bytes)
    (body : List Node) : Eval Value := do
  let value := .function (← fresh) name params body s
  declare s name value true span
  return value

def assignment (s : ScopeId) (span : Span) (target value : Node) : Eval Value :=
  match target with
  | .name _ name => do
    let value ← eval value s
    assign s name value span
    return value
  | _ => fail .invalidTarget target.span

/-- A key that comes again takes the later value and keeps its place. -/
def fields (s : ScopeId) (made : Fields Value) : List Property → Eval (Fields Value)
  | [] => return made
  | .mk span key value :: rest => do
    let value ← if value.isMissing then lookup s key span else eval value s
    fields s (made.set key value) rest

def operation (s : ScopeId) (span : Span) (family : Family) (operator : Kind)
    (left right : Node) : Eval Value := do
  let a ← eval left s
  let b ← eval right s
  match Value.operate family operator a b with
  | .ok value => return value
  | .error fault => fail (.operator fault) span

/-- The first branch whose condition is true, or what stands behind the last `else`. -/
def choice (s : ScopeId) (otherwise : Option (List Node)) : List Branch → Eval Value
  | [] => body eval s .null (otherwise.getD [])
  | .mk _ condition statements :: rest => do
    match ← eval condition s with
    | .bool true => body eval s .null statements
    | .bool false => choice s otherwise rest
    | value => fail (.conditionNotBool value.typeName) condition.span

def bindAll (s : ScopeId) (span : Span) : List Bytes → List Value → Eval Unit
  | name :: names, value :: values => do
    declare s name value false span
    bindAll s span names values
  | _, _ => return ()

/-- The scope of one call, with the parameters bound to the arguments. -/
def callScope (name : Bytes) (params : List Bytes) (arguments : List Value) (home : ScopeId)
    (span : Span) : Eval ScopeId := do
  if arguments.length = params.length then
    let s ← child home
    bindAll s span params arguments
    return s
  fail (.wrongArity name params.length arguments.length) span

/-- What a function call gives: the returned value, or null if the body ended without one. -/
def unwrap : Value → Value
  | .returned _ value => value
  | _ => .null

def apply (callee : Value) (arguments : List Value) (span : Span) : Eval Value :=
  match callee with
  | .native f => f.call limit arguments span
  | .function _ name params statements home => do
    let s ← callScope name params arguments home span
    return unwrap (← body eval s .null statements)
  | .lambda _ params value home => do
    let s ← callScope (utf8 "lambda") params arguments home span
    eval value s
  | value => fail (.notCallable value.typeName) span

def call (s : ScopeId) (span : Span) (callee : Node) (arguments : List Node) : Eval Value := do
  let values ← all eval s arguments
  let function ← eval callee s
  apply eval limit function values span

/-- The key of a member access: an expression in brackets, or a name behind a point. -/
def memberKey (s : ScopeId) (property : Node) (computed : Bool) : Eval Value :=
  if computed then eval property s
  else match property with
    | .name _ name => return .ofText name
    | _ => fail .propertyNotName property.span

/-- Indices count from zero and must be whole. -/
def element (elements : List Value) (index : Float) : Option Value :=
  (Number.toNat? index).bind (elements[·]?)

def member (s : ScopeId) (span : Span) (object property : Node) (computed : Bool) :
    Eval Value := do
  let collection ← eval object s
  let key ← memberKey eval s property computed
  match collection with
  | .object _ fields =>
    match key with
    | .text key _ => return (Fields.get? fields key).getD .null
    | _ => fail (.keyNotText key.typeName) property.span
  | .array _ elements =>
    match key with
    | .number index _ =>
      match element elements index with
      | some value => return value
      | none => fail (.indexOutOfRange index elements.length) property.span
    | _ => fail (.indexNotNumber key.typeName) property.span
  | _ => fail (.noMembers collection.typeName) span

def step (node : Node) (s : ScopeId) : Eval Value :=
  match node with
  | .missing => return .null
  | .null _ => return .null
  | .number _ value width => return .number value (some width)
  | .text _ value length => return .text value length
  | .name span name => lookup s name span
  | .program _ statements => program eval s .null statements
  | .declare span name constant value => declaration eval s span name constant value
  | .function span name params statements => function s span name params statements
  | .lambda _ params value => return .lambda (← fresh) params value s
  | .choice _ branches otherwise => choice eval s otherwise branches
  | .ret _ value => do
    let value ← eval value s
    return .returned (← fresh) value
  | .del span name => do
    delete s name span
    return .null
  | .raise span message => throw (.raised message span)
  | .assign span target value => assignment eval s span target value
  | .member span object property computed => member eval s span object property computed
  | .call span callee arguments => call eval limit s span callee arguments
  | .operation span family operator left right =>
    operation eval s span family operator left right
  | .array _ elements => do
    let values ← all eval s elements
    return .array (← fresh) values
  | .object _ properties => do
    let entries ← fields eval s [] properties
    return .object (← fresh) entries
  | .unknown span => fail .unexpectedNode span

end

end Eval

/-- The value of a node in a scope, computed to a given depth of nesting and calls. -/
def eval : Nat → Node → ScopeId → Eval Value
  | 0, _, _ => throw .exhausted
  | depth + 1, node, s => Eval.step (eval depth) depth node s

end Tide
