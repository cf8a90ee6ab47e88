import Tide.Grammar.Expression

/-!
# Statements and programs

A statement is a declaration, a function, a choice, a return or an expression. Statements and
expressions contain each other; both are read to a bounded depth, and every step into the other or
into itself has taken a token before, except that a statement may be an expression. A depth of
twice the number of tokens is therefore never reached, and `Program.parse` supplies it.
-/
namespace Tide

namespace Grammar

section

variable (statement expression : Place → Parser Node) (limit : Nat)

/-- `? name;`, `? name = statement` or `! name = statement` -/
def declaration (place : Place) : Parser Node := do
  let marker ← Parser.advance
  let constant := marker.kind = .symbol .bang
  let name ← Parser.expect .ident
  let next ← Parser.peek
  match next.kind with
  | .symbol .semicolon =>
    if constant then
      Parser.fail (.uninitializedConstant name.lexeme) (← Parser.spanFrom marker.span.start)
    let _ ← Parser.advance
    return .declare (← Parser.spanFrom marker.span.start) name.lexeme constant .missing
  | .symbol .assign =>
    let _ ← Parser.advance
    let value ← statement place.inner
    return .declare (← Parser.spanFrom marker.span.start) name.lexeme constant value
  | _ => Parser.fail (.expectedInitializer name.lexeme next) next.span

/-- `fn name |params| ( body )` -/
def function : Parser Node := do
  let start ← Parser.advance
  let name ← Parser.expect .ident
  let names ← params limit
  let statements ← body statement limit .functionBody
  return .function (← Parser.spanFrom start.span.start) name.lexeme names statements

def statementStep (place : Place) : Parser Node := do
  match ← Parser.peekKind with
  | .symbol .question | .symbol .bang => declaration statement place
  | .keyword .fn => function statement limit
  | .keyword .if_ => choice statement expression limit place
  | .keyword .return_ => ret expression place
  | _ => expression place.inner

end

mutual

def statement : Nat → Place → Parser Node
  | 0, _ => Parser.exhausted
  | depth + 1, place => statementStep (statement depth) (expression depth) depth place

def expression : Nat → Place → Parser Node
  | 0, _ => Parser.exhausted
  | depth + 1, place => assignment (statement depth) (expression depth) depth place

end

def program (depth : Nat) : Parser Node := do
  let first ← Parser.peek
  let statements ← Parser.statements (· = .eof) (statement depth .outside) depth
  let last ← Parser.peek
  return .program ⟨first.span.start, last.span.stop⟩ statements

/-- Deep enough for every list of this length. -/
def depthFor (tokens : List Token) : Nat := 2 * tokens.length + 2

end Grammar

namespace Program

def parseWithin (depth : Nat) (tokens : List Token) : Except Halt Node :=
  match Grammar.program depth (Stream.ofTokens tokens) with
  | .ok (program, _) => .ok program
  | .error stop => .error stop.halt

/-- The program that a token list spells, or the first thing that is wrong with it. -/
def parse (tokens : List Token) : Except Diagnostic Node :=
  match parseWithin (Grammar.depthFor tokens) tokens with
  | .ok program => .ok program
  | .error (.fault cause span) => .error (cause.diagnostic span)
  | .error .exhausted => .error (SyntaxFault.diagnostic (.unexpected .missingEnd) .zero)

end Program
end Tide
