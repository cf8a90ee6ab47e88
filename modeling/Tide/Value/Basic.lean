import Tide.Number.Layout
import Tide.Text.Quoted
import Tide.Tree.Node
import Tide.Value.Fields

/-!
# Values

What expressions evaluate to. Collections never change once they are made, but two collections
with the same content are still two: each carries the number under which it was made, and identity
compares those numbers. A closure carries its code and the scope it was made in.

`returned` is not a value that a program can get hold of. It marks that a `return` was reached and
travels outward to the call that it ends.
-/
namespace Tide

/-- Scopes are known by their place in the store. -/
abbrev ScopeId := Nat

/-- The functions that every program starts with. -/
inductive Native where
  | print
  | type
  | range
deriving DecidableEq, Repr, Inhabited

def Native.name : Native → String
  | .print => "print"
  | .type => "type"
  | .range => "range"

inductive Value where
  | null
  | bool (b : Bool)
  /-- A number, and the width it was written with if it came from a literal. -/
  | number (x : Float) (written : Option Int)
  /-- A string and its length in characters. -/
  | text (s : Bytes) (length : Int)
  | array (identity : Nat) (elements : List Value)
  | object (identity : Nat) (fields : List (Bytes × Value))
  | native (f : Native)
  | function (identity : Nat) (name : Bytes) (params : List Bytes) (body : List Node)
      (scope : ScopeId)
  | lambda (identity : Nat) (params : List Bytes) (body : Node) (scope : ScopeId)
  | returned (identity : Nat) (value : Value)

instance : Inhabited Value := ⟨.null⟩

namespace Value

def ofNumber (x : Float) : Value := .number x none

def ofText (s : Bytes) : Value := .text s (Utf8.count s)

def typeName : Value → String
  | .null => "null"
  | .bool _ => "bool"
  | .number .. => "number"
  | .text .. => "string"
  | .array .. => "array"
  | .object .. => "object"
  | .native _ => "native-fn"
  | .function .. => "function"
  | .lambda .. => "lambda"
  | .returned .. => "return"

/-- A computed number is as wide as its text. -/
def numberWidth (x : Float) (written : Option Int) : Int :=
  written.getD (Number.render x).length

def boolText (b : Bool) : Bytes := utf8 (if b then "true" else "false")

/-- Inside a collection a string is quoted, and everything else stands as it does alone. -/
def nested (value : Value) (text : Bytes) : Bytes :=
  match value with
  | .text s _ => quoteText s
  | _ => text

mutual

def render : Value → Bytes
  | .null => utf8 "null"
  | .bool b => boolText b
  | .number x _ => Number.render x
  | .text s _ => s
  | .array _ elements => utf8 "[" ++ Bytes.join (utf8 ", ") (renderElements elements) ++ utf8 "]"
  | .object _ fields =>
    utf8 "\x7b" ++ Bytes.join (utf8 ", ") (renderFields fields) ++ utf8 "\x7d"
  | .native f => utf8 "<native-fn " ++ utf8 f.name ++ utf8 ">"
  | .function _ name .. => utf8 "<function " ++ name ++ utf8 ">"
  | .lambda _ params .. => utf8 "<lambda |" ++ Bytes.join (utf8 ", ") params ++ utf8 "|>"
  | .returned _ value => render value

def renderElements : List Value → List Bytes
  | [] => []
  | value :: rest => nested value (render value) :: renderElements rest

def renderFields : List (Bytes × Value) → List Bytes
  | [] => []
  | (key, value) :: rest =>
    (key ++ utf8 ": " ++ nested value (render value)) :: renderFields rest

end

def renderAll (separator : Bytes) (values : List Value) : Bytes :=
  Bytes.join separator (values.map render)

end Value
end Tide
