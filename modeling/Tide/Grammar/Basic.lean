import Tide.Grammar.Fault

/-!
# Reading a token list

A parser walks a list of tokens. Besides what is left it remembers where the last token it took
ended, because a node ends where its last token does. A list need not have an end token; past its
last element there is always one more, at no place in particular, and taking that one changes
nothing.

Operators of two characters are put together here, on demand and only for the operators that are
wanted at that point. The two tokens must touch, and they are replaced by the one they spell.

Parsers are written with a bound on their depth. Running into the bound is an outcome of its own,
so that it can be told apart from a fault of the program. Either way a parser that gives up leaves
the stream where it stood.
-/
namespace Tide

structure Stream where
  rest : List Token
  /-- The end of the token taken last. -/
  behind : Position
deriving DecidableEq, Repr, Inhabited

namespace Stream

def ofTokens (tokens : List Token) : Stream :=
  ⟨tokens, (tokens.headD .missingEnd).span.start⟩

def head (s : Stream) : Token := s.rest.headD .missingEnd

/-- What is left and where the last token ended, after one token. -/
def tail (s : Stream) : Stream :=
  match s.rest with
  | [] => s
  | token :: rest => ⟨rest, token.span.stop⟩

def second (s : Stream) : Token := s.tail.head

def skipWhile (accept : Kind → Bool) : List Token → Position → Stream
  | [], behind => ⟨[], behind⟩
  | token :: rest, behind =>
    if accept token.kind then skipWhile accept rest token.span.stop else ⟨token :: rest, behind⟩

/-- Joins the first two tokens if they touch and spell one of the wanted operators. -/
def fuse (wanted : List Fused) (s : Stream) : Stream :=
  match s.rest with
  | first :: second :: rest =>
    if first.span.stop.offset = second.span.start.offset then
      match Kind.fuse first.kind second.kind with
      | some operator =>
        if operator ∈ wanted then
          let joined := ⟨.fused operator, first.lexeme ++ second.lexeme,
            first.span.join second.span⟩
          { s with rest := joined :: rest }
        else s
      | none => s
    else s
  | _ => s

end Stream

/-- Why a parser gave up. -/
inductive Halt where
  | fault (cause : SyntaxFault) (span : Span)
  | exhausted
deriving DecidableEq, Repr

/-- Where a parser gave up, and why. -/
structure Stop where
  halt : Halt
  stream : Stream
deriving DecidableEq, Repr

abbrev Parser := StateT Stream (Except Stop)

namespace Parser

def fail {α : Type} (cause : SyntaxFault) (span : Span) : Parser α :=
  fun s => .error ⟨.fault cause span, s⟩

def exhausted {α : Type} : Parser α := fun s => .error ⟨.exhausted, s⟩

def peek : Parser Token := fun s => .ok (s.head, s)

def peekSecond : Parser Token := fun s => .ok (s.second, s)

def peekKind : Parser Kind := fun s => .ok (s.head.kind, s)

def advance : Parser Token := fun s => .ok (s.head, s.tail)

/-- The end of the token taken last. -/
def behind : Parser Position := fun s => .ok (s.behind, s)

def at_ (kind : Kind) : Parser Bool := fun s => .ok (s.head.kind = kind, s)

def atSymbol (symbol : Symbol) : Parser Bool := at_ (.symbol symbol)

def fuse (wanted : List Fused) : Parser Unit := fun s => .ok ((), s.fuse wanted)

def expect (kind : Kind) : Parser Token := fun s =>
  if s.head.kind = kind then .ok (s.head, s.tail)
  else .error ⟨.fault (.expected kind s.head) s.head.span, s⟩

def expectSymbol (symbol : Symbol) : Parser Token := expect (.symbol symbol)

def skipSeparators : Parser Unit := fun s =>
  .ok ((), Stream.skipWhile (· = .symbol .semicolon) s.rest s.behind)

/-- The span from `start` to the end of the token taken last. -/
def spanFrom (start : Position) : Parser Span := fun s => .ok (⟨start, s.behind⟩, s)

/-! ### Repetition

Each loop takes a bound on its rounds. -/

/-- Items until the next token is one to stop at, with separators anywhere between them. -/
def statements (stop : Kind → Bool) (item : Parser α) : Nat → Parser (List α)
  | 0 => exhausted
  | limit + 1 => do
    skipSeparators
    if stop (← peekKind) then return []
    let first ← item
    let rest ← statements stop item limit
    return first :: rest

/-- One item, and one more behind each comma. -/
def commaSeparated (item : Parser α) : Nat → Parser (List α)
  | 0 => exhausted
  | limit + 1 => do
    let first ← item
    if ← atSymbol .comma then
      let _ ← advance
      let rest ← commaSeparated item limit
      return first :: rest
    return [first]

/-- Comma-separated items up to a closing symbol, which is taken too. -/
def listUpTo (closing : Symbol) (item : Parser α) (limit : Nat) : Parser (List α) := do
  if ← atSymbol closing then
    let _ ← advance
    return []
  let items ← commaSeparated item limit
  let _ ← expectSymbol closing
  return items

/-- `operand operator operand ...`, grouped from the left. -/
def leftChain (isOperator : Kind → Bool) (operand : Parser α) (combine : Kind → α → α → α)
    (left : α) : Nat → Parser α
  | 0 => exhausted
  | limit + 1 => do
    if isOperator (← peekKind) then
      let operator ← advance
      let right ← operand
      leftChain isOperator operand combine (combine operator.kind left right) limit
    else return left

/-- `operand operator operand ...`, grouped from the right. `prepare` runs in front of each test
for an operator. -/
def rightChain (prepare : Parser Unit) (isOperator : Kind → Bool) (operand : Parser α)
    (combine : Kind → α → α → α) : Nat → Parser α
  | 0 => exhausted
  | limit + 1 => do
    let left ← operand
    prepare
    if isOperator (← peekKind) then
      let operator ← advance
      let right ← rightChain prepare isOperator operand combine limit
      return combine operator.kind left right
    return left

end Parser
end Tide
