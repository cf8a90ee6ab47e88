import Tide.Grammar.Basic
import Tide.Number.Reading
import Tide.Tree.Node

/-!
# Expressions

From the loosest level to the tightest: assignment, object literal, array literal, sums, products,
`and`/`or`/`xor`, comparisons, calls and member accesses, and single terms. Logic and comparison
bind tighter than arithmetic. Sums and products group from the left, the rest from the right. An
object or array literal takes the place of a whole sum, so it needs parentheses to be an operand.

A term may hold whole expressions and statements again. Those parsers are arguments here, and the
knot is tied in `Tide.Grammar.Program`.
-/
namespace Tide

/-- Where a construct stands, as far as `return` is concerned. -/
inductive Place where
  /-- In no function at all. -/
  | outside
  /-- In a function, but inside an expression of it. -/
  | nested
  /-- A statement of a function body. -/
  | functionBody
deriving DecidableEq, Repr, Inhabited

/-- A part of an expression is never a statement of the body. -/
def Place.inner : Place → Place
  | .outside => .outside
  | _ => .nested

namespace Grammar

def operation (family : Family) (operator : Kind) (left right : Node) : Node :=
  .operation (left.span.join right.span) family operator left right

def isAdditive (kind : Kind) : Bool := kind = .symbol .plus || kind = .symbol .minus

def isMultiplicative (kind : Kind) : Bool :=
  kind = .symbol .star || kind = .symbol .slash || kind = .symbol .percent ||
    kind = .symbol .caret || kind = .symbol .tilde

def isLogical (kind : Kind) : Bool :=
  kind = .keyword .and || kind = .keyword .or || kind = .keyword .xor

def comparisonPairs : List Fused := [.gte, .lte, .eq, .neq]

def isComparison (kind : Kind) : Bool :=
  kind = .symbol .lt || kind = .symbol .gt || kind = .fused .gte || kind = .fused .lte ||
    kind = .fused .eq || kind = .fused .neq

def number (text : Bytes) (span : Span) : Parser Node :=
  match Number.read? text with
  | some value => pure (.number span value text.length)
  | none => Parser.fail (.invalidNumber text) span

/-- `| name, name, ... |` -/
def params (limit : Nat) : Parser (List Bytes) := do
  let _ ← Parser.expectSymbol .pipe
  Parser.listUpTo .pipe (do return (← Parser.expect .ident).lexeme) limit

section

variable (statement expression : Place → Parser Node) (limit : Nat)

/-- `( statement; statement; ... )` -/
def body (place : Place) : Parser (List Node) := do
  let _ ← Parser.expectSymbol .lparen
  let found ← Parser.statements (fun kind => kind = .symbol .rparen || kind = .eof)
    (statement place) limit
  let _ ← Parser.expectSymbol .rparen
  return found

/-- The condition in braces and the body behind an `if` that began at `start`. -/
def branch (place : Place) (start : Position) : Parser Branch := do
  let opening ← Parser.expectSymbol .lbrace
  let next ← Parser.peek
  if next.kind = .symbol .rbrace then
    Parser.fail .emptyCondition (opening.span.join next.span)
  let condition ← expression place.inner
  let _ ← Parser.expectSymbol .rbrace
  let statements ← body statement limit place
  return .mk (← Parser.spanFrom start) condition statements

/-- What follows the first branch: any number of `else if`, and at most one `else` at the end. -/
def alternatives (place : Place) : Nat → Parser (List Branch × Option (List Node))
  | 0 => Parser.exhausted
  | rounds + 1 => do
    if ← Parser.at_ (.keyword .else_) then
      let _ ← Parser.advance
      if ← Parser.at_ (.keyword .if_) then
        let start ← Parser.advance
        let next ← branch statement expression limit place start.span.start
        let (branches, otherwise) ← alternatives place rounds
        return (next :: branches, otherwise)
      return ([], some (← body statement limit place))
    return ([], none)

/-- Bodies stand where the whole does, so a `return` may be nested in an `if` of a function. -/
def choice (place : Place) : Parser Node := do
  let start ← Parser.advance
  let first ← branch statement expression limit place start.span.start
  let (branches, otherwise) ← alternatives statement expression limit place limit
  return .choice (← Parser.spanFrom start.span.start) (first :: branches) otherwise

def ret (place : Place) : Parser Node := do
  let start ← Parser.advance
  match place with
  | .outside => Parser.fail .returnOutsideFunction start.span
  | .nested => Parser.fail .returnInExpression start.span
  | .functionBody =>
    let value ← expression place.inner
    return .ret (← Parser.spanFrom start.span.start) value

/-- `lambda |params| => expression` -/
def lambda : Parser Node := do
  let start ← Parser.advance
  let names ← params limit
  Parser.fuse [.fatArrow]
  let _ ← Parser.expect (.fused .fatArrow)
  let value ← expression .nested
  return .lambda (← Parser.spanFrom start.span.start) names value

def del : Parser Node := do
  let start ← Parser.advance
  let target ← Parser.peek
  if target.kind = .ident then
    let _ ← Parser.advance
    return .del ⟨start.span.start, target.span.stop⟩ target.lexeme
  Parser.fail (.delWithoutName target) target.span

def raise : Parser Node := do
  let start ← Parser.advance
  let message ← Parser.peek
  if message.kind = .string then
    let _ ← Parser.advance
    return .raise ⟨start.span.start, message.span.stop⟩ message.lexeme
  Parser.fail (.raiseWithoutText message) message.span

/-- A sign belongs to the number literal behind it, and to nothing else. -/
def signed : Parser Node := do
  let sign ← Parser.peek
  let next ← Parser.peekSecond
  if next.kind.isNumeric then
    let _ ← Parser.advance
    let _ ← Parser.advance
    number (sign.lexeme ++ next.lexeme) (sign.span.join next.span)
  else Parser.fail (.loneSign sign.lexeme) sign.span

def parenthesized (place : Place) : Parser Node := do
  let _ ← Parser.advance
  let inside ← expression place
  let _ ← Parser.expectSymbol .rparen
  return inside

def term (place : Place) : Parser Node := do
  let token ← Parser.peek
  match token.kind with
  | .ident =>
    let _ ← Parser.advance
    return .name token.span token.lexeme
  | .number | .float =>
    let _ ← Parser.advance
    number token.lexeme token.span
  | .symbol .minus | .symbol .plus => signed
  | .string =>
    let _ ← Parser.advance
    return .text token.span token.lexeme (Utf8.count token.lexeme)
  | .symbol .lparen => parenthesized expression place
  | .keyword .lambda => lambda expression limit
  | .keyword .if_ => choice statement expression limit place
  | .keyword .return_ => ret expression place
  | .keyword .del => del
  | .keyword .raise => raise
  | .keyword .else_ => Parser.fail .strayElse token.span
  | .keyword word => Parser.fail (.reserved (.keyword word)) token.span
  | _ => Parser.fail (.unexpected token) token.span

def property (object : Node) : Parser Node := do
  let _ ← Parser.advance
  let key ← Parser.peek
  if key.kind = .ident then
    let _ ← Parser.advance
    return .member (object.span.join key.span) object (.name key.span key.lexeme) false
  Parser.fail (.expectedProperty key) key.span

def index (place : Place) (object : Node) : Parser Node := do
  let _ ← Parser.advance
  let key ← expression place
  let _ ← Parser.expectSymbol .rbracket
  return .member (← Parser.spanFrom object.span.start) object key true

def call (place : Place) (callee : Node) : Parser Node := do
  let _ ← Parser.advance
  let arguments ← Parser.listUpTo .rparen (expression place) limit
  return .call (← Parser.spanFrom callee.span.start) callee arguments

/-- Calls, member accesses and index accesses, as many as there are. -/
def accesses (place : Place) (object : Node) : Nat → Parser Node
  | 0 => Parser.exhausted
  | rounds + 1 => do
    match ← Parser.peekKind with
    | .symbol .lparen => accesses place (← call expression limit place object) rounds
    | .symbol .dot => accesses place (← property object) rounds
    | .symbol .lbracket => accesses place (← index expression place object) rounds
    | _ => return object

def accessed (place : Place) : Parser Node := do
  accesses expression limit place (← term statement expression limit place) limit

def comparison (place : Place) : Parser Node :=
  Parser.rightChain (Parser.fuse comparisonPairs) isComparison
    (accessed statement expression limit place) (operation .comparison) limit

def logical (place : Place) : Parser Node :=
  Parser.rightChain (pure ()) isLogical (comparison statement expression limit place)
    (operation .logical) limit

def product (place : Place) : Parser Node := do
  let first ← logical statement expression limit place
  Parser.leftChain isMultiplicative (logical statement expression limit place)
    (operation .arithmetic) first limit

def sum (place : Place) : Parser Node := do
  let first ← product statement expression limit place
  Parser.leftChain isAdditive (product statement expression limit place)
    (operation .arithmetic) first limit

def array (place : Place) : Parser Node := do
  let start ← Parser.advance
  let elements ← Parser.listUpTo .rbracket (expression place) limit
  return .array (← Parser.spanFrom start.span.start) elements

/-- The entries of an object up to its closing brace. A key alone is short for its own value, and
a comma may follow every entry. -/
def properties (place : Place) : Nat → Parser (List Property)
  | 0 => Parser.exhausted
  | rounds + 1 => do
    let next ← Parser.peekKind
    if next = .eof || next = .symbol .rbrace then return []
    let key ← Parser.expect .ident
    match ← Parser.peekKind with
    | .symbol .comma =>
      let _ ← Parser.advance
      return .mk key.span key.lexeme .missing :: (← properties place rounds)
    | .symbol .rbrace => return .mk key.span key.lexeme .missing :: (← properties place rounds)
    | _ =>
      let _ ← Parser.expectSymbol .colon
      let value ← expression place
      let span ← Parser.spanFrom key.span.start
      if !(← Parser.atSymbol .rbrace) then
        let _ ← Parser.expectSymbol .comma
      return .mk span key.lexeme value :: (← properties place rounds)

def object (place : Place) : Parser Node := do
  let start ← Parser.advance
  let entries ← properties expression place limit
  let _ ← Parser.expectSymbol .rbrace
  return .object (← Parser.spanFrom start.span.start) entries

def simple (place : Place) : Parser Node := do
  match ← Parser.peekKind with
  | .symbol .lbrace => object expression limit place
  | .symbol .lbracket => array expression limit place
  | _ => sum statement expression limit place

def assignment (place : Place) : Parser Node :=
  Parser.rightChain (pure ()) (· = .symbol .assign) (simple statement expression limit place)
    (fun _ target value => .assign ⟨target.span.start, value.span.stop⟩ target value) limit

end

end Grammar
end Tide
