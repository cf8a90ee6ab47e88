import Tide.Source.Span
import Tide.Token.Kind

/-!
# Syntax trees

One type for statements and expressions alike, because an initialiser may be any statement and a
body may hold any expression. Each node carries the span of the source it was read from.

A child can be absent in two ways that mean something, a declaration without an initialiser and a
property that is short for a look-up of its own key, and both are written `missing`. Elsewhere the
parser never leaves a child out, but a tree built by hand may.
-/
namespace Tide

/-- What an operator combines. The operators of a family share their evaluation. -/
inductive Family where
  | arithmetic
  | comparison
  | logical
deriving DecidableEq, Repr, Inhabited

mutual

inductive Node where
  | missing
  | program (span : Span) (body : List Node)
  | declare (span : Span) (name : Bytes) (constant : Bool) (value : Node)
  | function (span : Span) (name : Bytes) (params : List Bytes) (body : List Node)
  | lambda (span : Span) (params : List Bytes) (body : Node)
  /-- The branches in order, then the body for when no condition held, if there is one. -/
  | choice (span : Span) (branches : List Branch) (otherwise : Option (List Node))
  | ret (span : Span) (value : Node)
  | del (span : Span) (name : Bytes)
  | raise (span : Span) (message : Bytes)
  | assign (span : Span) (target value : Node)
  /-- `object[property]` when computed, and `object.property` otherwise. -/
  | member (span : Span) (object property : Node) (computed : Bool)
  | call (span : Span) (callee : Node) (arguments : List Node)
  | operation (span : Span) (family : Family) (operator : Kind) (left right : Node)
  | name (span : Span) (name : Bytes)
  /-- The width is the length of the literal in the source, sign included. -/
  | number (span : Span) (value : Float) (width : Int)
  /-- The length counts characters. -/
  | text (span : Span) (value : Bytes) (length : Int)
  | array (span : Span) (elements : List Node)
  | object (span : Span) (properties : List Property)
  | null (span : Span)
  /-- A node of no known kind. -/
  | unknown (span : Span)

inductive Branch where
  | mk (span : Span) (condition : Node) (body : List Node)

inductive Property where
  | mk (span : Span) (key : Bytes) (value : Node)

end

instance : Inhabited Node := ⟨.missing⟩

namespace Node

def span : Node → Span
  | .missing => .zero
  | .program span .. | .declare span .. | .function span .. | .lambda span .. | .choice span ..
  | .ret span .. | .del span .. | .raise span .. | .assign span .. | .member span ..
  | .call span .. | .operation span .. | .name span .. | .number span .. | .text span ..
  | .array span .. | .object span .. | .null span | .unknown span => span

def isMissing : Node → Bool
  | .missing => true
  | _ => false

end Node

namespace Branch

def span : Branch → Span
  | .mk span .. => span

def condition : Branch → Node
  | .mk _ condition _ => condition

def body : Branch → List Node
  | .mk _ _ body => body

end Branch

namespace Property

def span : Property → Span
  | .mk span .. => span

def key : Property → Bytes
  | .mk _ key _ => key

def value : Property → Node
  | .mk _ _ value => value

end Property
end Tide
