import Tide.Number.Layout
import Tide.Text.Quoted
import Tide.Tree.Node

/-!
# Writing a tree as source text

The layout has one statement per line, bodies indented by two blanks. Every operand that is not a
name, a literal, a call or a member access goes in parentheses, so no precedence has to be known
to read it back. Statements end with a semicolon unless they end with a body: without it a
following parenthesis would turn the statement before it into a call.

A program nested in another node has no text, nor has a node of no known kind.
-/
namespace Tide

namespace Format

def indent (depth : Nat) : Bytes := List.replicate (2 * depth) ' '.toUInt8

/-- Needs no parentheses as an operand. -/
def isAtomic : Node → Bool
  | .name .. | .number .. | .text .. | .null .. | .member .. | .call .. => true
  | _ => false

/-- Ends with a body, and so without a semicolon. -/
def isBlock : Node → Bool
  | .function .. | .choice .. => true
  | _ => false

def parenthesize (node : Node) (text : Bytes) : Bytes :=
  if isAtomic node then text else utf8 "(" ++ text ++ utf8 ")"

def line (depth : Nat) (node : Node) (text : Bytes) : Bytes :=
  indent depth ++ text ++ (if isBlock node then [] else utf8 ";")

def params (names : List Bytes) : Bytes :=
  utf8 "|" ++ Bytes.join (utf8 ", ") names ++ utf8 "|"

def body (depth : Nat) (lines : List Bytes) : Bytes :=
  if lines.isEmpty then utf8 "()"
  else utf8 "(\n" ++ Bytes.join (utf8 "\n") lines ++ utf8 "\n" ++ indent depth ++ utf8 ")"

def list (parts : List Bytes) : Bytes := Bytes.join (utf8 ", ") parts

mutual

def node (depth : Nat) : Node → Bytes
  | .declare _ name constant value =>
    utf8 (if constant then "! " else "? ") ++ name ++
      (if value.isMissing then [] else utf8 " = " ++ node depth value)
  | .function _ name names statements =>
    utf8 "fn " ++ name ++ utf8 " " ++ params names ++ utf8 " " ++
      body depth (lines (depth + 1) statements)
  | .lambda _ names value => utf8 "lambda " ++ params names ++ utf8 " => " ++ node depth value
  | .choice _ branches otherwise =>
    Bytes.join (utf8 " else ") (conditions depth branches) ++ alternative depth otherwise
  | .ret _ value => utf8 "return " ++ node depth value
  | .del _ name => utf8 "del " ++ name
  | .raise _ message => utf8 "raise " ++ Literal.encode message
  | .assign _ target value =>
    parenthesize target (node depth target) ++ utf8 " = " ++ node depth value
  | .member _ object property true =>
    parenthesize object (node depth object) ++ utf8 "[" ++ node depth property ++ utf8 "]"
  | .member _ object property false =>
    parenthesize object (node depth object) ++ utf8 "." ++ node depth property
  | .call _ callee arguments =>
    parenthesize callee (node depth callee) ++ utf8 "(" ++ list (nodes depth arguments) ++
      utf8 ")"
  | .operation _ _ operator left right =>
    parenthesize left (node depth left) ++ utf8 " " ++ operator.render ++ utf8 " " ++
      parenthesize right (node depth right)
  | .name _ name => name
  | .number _ value _ => Number.render value
  | .text _ value _ => Literal.encode value
  | .array _ elements => utf8 "[" ++ list (nodes depth elements) ++ utf8 "]"
  | .object _ entries => utf8 "\x7b" ++ list (properties depth entries) ++ utf8 "\x7d"
  | .null _ => utf8 "null"
  | .missing | .program .. | .unknown _ => []

def nodes (depth : Nat) : List Node → List Bytes
  | [] => []
  | first :: rest => node depth first :: nodes depth rest

def lines (depth : Nat) : List Node → List Bytes
  | [] => []
  | first :: rest => line depth first (node depth first) :: lines depth rest

def conditions (depth : Nat) : List Branch → List Bytes
  | [] => []
  | .mk _ condition statements :: rest =>
    (utf8 "if \x7b" ++ node depth condition ++ utf8 "\x7d " ++
      body depth (lines (depth + 1) statements)) :: conditions depth rest

def alternative (depth : Nat) : Option (List Node) → Bytes
  | none => []
  | some statements => utf8 " else " ++ body depth (lines (depth + 1) statements)

def properties (depth : Nat) : List Property → List Bytes
  | [] => []
  | .mk _ key value :: rest =>
    (key ++ (if value.isMissing then [] else utf8 ": " ++ node depth value)) ::
      properties depth rest

end

end Format

/-- A program is the lines of its statements, each with its line feed; any other node stands
alone. -/
def Node.format : Node → Bytes
  | .program _ statements => (Format.lines 0 statements).flatMap (· ++ utf8 "\n")
  | node => Format.node 0 node

end Tide
