import Tide.Proofs.Grammar.Steps

/-!
# The grammar as rules

`Reads goal s result t` says that the goal, started at the stream `s`, gives `result` and stops at
`t`. There is one rule for each way a parser of the grammar can succeed, with the tests on the next
token that it makes, and no bound on depth. A property of every program that parses is an induction
over these rules; a program parses when its rules can be put together.
-/
namespace Tide

namespace Grammar

/-- The levels at which operators combine operands. -/
inductive Level where
  | assignment
  | sum
  | product
  | logical
  | comparison
deriving DecidableEq, Repr

namespace Level

def isOperator : Level → Kind → Bool
  | .assignment => (· = .symbol .assign)
  | .sum => isAdditive
  | .product => isMultiplicative
  | .logical => isLogical
  | .comparison => isComparison

def combine : Level → Kind → Node → Node → Node
  | .assignment => fun _ target value =>
    .assign ⟨target.span.start, value.span.stop⟩ target value
  | .sum | .product => Grammar.operation .arithmetic
  | .logical => Grammar.operation .logical
  | .comparison => Grammar.operation .comparison

/-- Whether `a ∘ b ∘ c` means `(a ∘ b) ∘ c`. -/
def groupsLeft : Level → Bool
  | .sum | .product => true
  | _ => false

/-- What happens to the stream in front of a test for an operator. -/
def prepare : Level → Stream → Stream
  | .comparison, s => s.fuse comparisonPairs
  | _, s => s

end Level

/-- The types of what parts of the grammar give. -/
inductive Shape where
  | node
  | nodes
  | branch
  | branches
  | names
  | properties

abbrev Shape.Result : Shape → Type
  | .node => Node
  | .nodes => List Node
  | .branch => Branch
  | .branches => List Branch × Option (List Node)
  | .names => List Bytes
  | .properties => List Property

/-- The parts of the grammar. -/
inductive Goal : Shape → Type where
  | statement (place : Place) : Goal .node
  /-- Statements up to the end of the source, or up to a closing parenthesis. -/
  | statements (nested : Bool) (place : Place) : Goal .nodes
  | body (place : Place) : Goal .nodes
  | branch (place : Place) (start : Position) : Goal .branch
  | alternatives (place : Place) : Goal .branches
  | choice (place : Place) : Goal .node
  | ret (place : Place) : Goal .node
  | chain (level : Level) (place : Place) : Goal .node
  /-- The operators and operands that follow a first operand. -/
  | more (level : Level) (place : Place) (left : Node) : Goal .node
  | simple (place : Place) : Goal .node
  | accessed (place : Place) : Goal .node
  | accesses (place : Place) (object : Node) : Goal .node
  | term (place : Place) : Goal .node
  | items (place : Place) : Goal .nodes
  | list (closing : Symbol) (place : Place) : Goal .nodes
  | names : Goal .names
  | params : Goal .names
  | properties (place : Place) : Goal .properties

namespace Goal

abbrev expression (place : Place) : Goal .node := .chain .assignment place

end Goal

def Level.operand (place : Place) : Level → Goal .node
  | .assignment => .simple place
  | .sum => .chain .product place
  | .product => .chain .logical place
  | .logical => .chain .comparison place
  | .comparison => .accessed place

/-- Where a list of statements ends. -/
def stops (nested : Bool) (kind : Kind) : Bool :=
  (nested && kind = .symbol .rparen) || kind = .eof

/-- Whether a statement that begins like this is more than an expression. -/
def opensStatement : Kind → Bool
  | .symbol .question | .symbol .bang | .keyword .fn | .keyword .if_ | .keyword .return_ => true
  | _ => false

inductive Reads : {shape : Shape} → Goal shape → Stream → shape.Result → Stream → Prop where
  /-- `? name;` -/
  | bare {place s} (marker : s.head.kind = .symbol .question) (name : s.tail.head.kind = .ident)
      (separator : s.tail.tail.head.kind = .symbol .semicolon) :
      Reads (.statement place) s
        (.declare ⟨s.head.span.start, s.tail.tail.tail.behind⟩ s.tail.head.lexeme false .missing)
        s.tail.tail.tail
  /-- `? name = statement` or `! name = statement` -/
  | declare {place s value t} (constant : Bool)
      (marker : s.head.kind = .symbol (if constant then .bang else .question))
      (name : s.tail.head.kind = .ident) (sign : s.tail.tail.head.kind = .symbol .assign)
      (initial : Reads (.statement place.inner) s.tail.tail.tail value t) :
      Reads (.statement place) s
        (.declare ⟨s.head.span.start, t.behind⟩ s.tail.head.lexeme constant value) t
  | function {place s names statements t u} (keyword : s.head.kind = .keyword .fn)
      (name : s.tail.head.kind = .ident) (parameters : Reads .params s.tail.tail names t)
      (inside : Reads (.body .functionBody) t statements u) :
      Reads (.statement place) s
        (.function ⟨s.head.span.start, u.behind⟩ s.tail.head.lexeme names statements) u
  | choiceStatement {place s node t} (whole : Reads (.choice place) s node t) :
      Reads (.statement place) s node t
  | retStatement {place s node t} (whole : Reads (.ret place) s node t) :
      Reads (.statement place) s node t
  | expressionStatement {place s node t} (plain : opensStatement s.head.kind = false)
      (whole : Reads (.expression place.inner) s node t) : Reads (.statement place) s node t
  | noStatements {nested place s} (stop : stops nested s.skip.head.kind = true) :
      Reads (.statements nested place) s [] s.skip
  | statements {nested place s first t rest u} (going : stops nested s.skip.head.kind = false)
      (head : Reads (.statement place) s.skip first t)
      (tail : Reads (.statements nested place) t rest u) :
      Reads (.statements nested place) s (first :: rest) u
  | body {place s statements t} (opening : s.head.kind = .symbol .lparen)
      (inside : Reads (.statements true place) s.tail statements t)
      (closing : t.head.kind = .symbol .rparen) : Reads (.body place) s statements t.tail
  | branch {place start s condition t statements u} (opening : s.head.kind = .symbol .lbrace)
      (filled : s.tail.head.kind ≠ .symbol .rbrace)
      (inside : Reads (.expression place.inner) s.tail condition t)
      (closing : t.head.kind = .symbol .rbrace) (follow : Reads (.body place) t.tail statements u) :
      Reads (.branch place start) s (.mk ⟨start, u.behind⟩ condition statements) u
  | noAlternative {place s} (end_ : s.head.kind ≠ .keyword .else_) :
      Reads (.alternatives place) s ([], none) s
  | otherwise {place s statements t} (keyword : s.head.kind = .keyword .else_)
      (last : s.tail.head.kind ≠ .keyword .if_)
      (follow : Reads (.body place) s.tail statements t) :
      Reads (.alternatives place) s ([], some statements) t
  | elseIf {place s first t rest u} (keyword : s.head.kind = .keyword .else_)
      (again : s.tail.head.kind = .keyword .if_)
      (head : Reads (.branch place s.tail.head.span.start) s.tail.tail first t)
      (tail : Reads (.alternatives place) t rest u) :
      Reads (.alternatives place) s (first :: rest.1, rest.2) u
  | choice {place s first t rest u} (keyword : s.head.kind = .keyword .if_)
      (head : Reads (.branch place s.head.span.start) s.tail first t)
      (tail : Reads (.alternatives place) t rest u) :
      Reads (.choice place) s (.choice ⟨s.head.span.start, u.behind⟩ (first :: rest.1) rest.2) u
  | ret {s value t} (keyword : s.head.kind = .keyword .return_)
      (follow : Reads (.expression .nested) s.tail value t) :
      Reads (.ret .functionBody) s (.ret ⟨s.head.span.start, t.behind⟩ value) t
  | alone {level place s operand t} (right : level.groupsLeft = false)
      (first : Reads (level.operand place) s operand t)
      (end_ : level.isOperator (level.prepare t).head.kind = false) :
      Reads (.chain level place) s operand (level.prepare t)
  | right {level place s left t operand u} (right : level.groupsLeft = false)
      (first : Reads (level.operand place) s left t)
      (sign : level.isOperator (level.prepare t).head.kind = true)
      (rest : Reads (.chain level place) (level.prepare t).tail operand u) :
      Reads (.chain level place) s
        (level.combine (level.prepare t).head.kind left operand) u
  | left {level place s first t result u} (left : level.groupsLeft = true)
      (head : Reads (level.operand place) s first t)
      (rest : Reads (.more level place first) t result u) :
      Reads (.chain level place) s result u
  | noMore {level place s left} (end_ : level.isOperator s.head.kind = false) :
      Reads (.more level place left) s left s
  | more {level place s left operand t result u} (sign : level.isOperator s.head.kind = true)
      (next : Reads (level.operand place) s.tail operand t)
      (rest : Reads (.more level place (level.combine s.head.kind left operand)) t result u) :
      Reads (.more level place left) s result u
  | object {place s entries t} (opening : s.head.kind = .symbol .lbrace)
      (inside : Reads (.properties place) s.tail entries t)
      (closing : t.head.kind = .symbol .rbrace) :
      Reads (.simple place) s (.object ⟨s.head.span.start, t.tail.behind⟩ entries) t.tail
  | array {place s elements t} (opening : s.head.kind = .symbol .lbracket)
      (inside : Reads (.list .rbracket place) s.tail elements t) :
      Reads (.simple place) s (.array ⟨s.head.span.start, t.behind⟩ elements) t
  | simple {place s node t} (noObject : s.head.kind ≠ .symbol .lbrace)
      (noArray : s.head.kind ≠ .symbol .lbracket) (whole : Reads (.chain .sum place) s node t) :
      Reads (.simple place) s node t
  | accessed {place s first t node u} (head : Reads (.term place) s first t)
      (rest : Reads (.accesses place first) t node u) : Reads (.accessed place) s node u
  | noAccess {place s object} (noCall : s.head.kind ≠ .symbol .lparen)
      (noProperty : s.head.kind ≠ .symbol .dot) (noIndex : s.head.kind ≠ .symbol .lbracket) :
      Reads (.accesses place object) s object s
  | call {place s object arguments t node u} (opening : s.head.kind = .symbol .lparen)
      (inside : Reads (.list .rparen place) s.tail arguments t)
      (rest : Reads (.accesses place (.call ⟨object.span.start, t.behind⟩ object arguments))
        t node u) :
      Reads (.accesses place object) s node u
  | property {place s object node t} (point : s.head.kind = .symbol .dot)
      (key : s.tail.head.kind = .ident)
      (rest : Reads (.accesses place (.member (object.span.join s.tail.head.span) object
        (.name s.tail.head.span s.tail.head.lexeme) false)) s.tail.tail node t) :
      Reads (.accesses place object) s node t
  | index {place s object key t node u} (opening : s.head.kind = .symbol .lbracket)
      (inside : Reads (.expression place) s.tail key t)
      (closing : t.head.kind = .symbol .rbracket)
      (rest : Reads (.accesses place (.member ⟨object.span.start, t.tail.behind⟩ object key true))
        t.tail node u) :
      Reads (.accesses place object) s node u
  | name {place s} (kind : s.head.kind = .ident) :
      Reads (.term place) s (.name s.head.span s.head.lexeme) s.tail
  | number {place s value} (kind : s.head.kind.isNumeric = true)
      (reading : Number.read? s.head.lexeme = some value) :
      Reads (.term place) s (.number s.head.span value s.head.lexeme.length) s.tail
  | signed {place s value}
      (sign : s.head.kind = .symbol .minus ∨ s.head.kind = .symbol .plus)
      (kind : s.tail.head.kind.isNumeric = true)
      (reading : Number.read? (s.head.lexeme ++ s.tail.head.lexeme) = some value) :
      Reads (.term place) s
        (.number (s.head.span.join s.tail.head.span) value
          (s.head.lexeme ++ s.tail.head.lexeme).length) s.tail.tail
  | text {place s} (kind : s.head.kind = .string) :
      Reads (.term place) s (.text s.head.span s.head.lexeme (Utf8.count s.head.lexeme)) s.tail
  | parenthesized {place s node t} (opening : s.head.kind = .symbol .lparen)
      (inside : Reads (.expression place) s.tail node t)
      (closing : t.head.kind = .symbol .rparen) : Reads (.term place) s node t.tail
  | lambda {place s names t value u} (keyword : s.head.kind = .keyword .lambda)
      (parameters : Reads .params s.tail names t)
      (arrow : (t.fuse [.fatArrow]).head.kind = .fused .fatArrow)
      (follow : Reads (.expression .nested) (t.fuse [.fatArrow]).tail value u) :
      Reads (.term place) s (.lambda ⟨s.head.span.start, u.behind⟩ names value) u
  | choiceTerm {place s node t} (whole : Reads (.choice place) s node t) :
      Reads (.term place) s node t
  | retTerm {place s node t} (whole : Reads (.ret place) s node t) : Reads (.term place) s node t
  | del {place s} (keyword : s.head.kind = .keyword .del) (name : s.tail.head.kind = .ident) :
      Reads (.term place) s
        (.del ⟨s.head.span.start, s.tail.head.span.stop⟩ s.tail.head.lexeme) s.tail.tail
  | raise {place s} (keyword : s.head.kind = .keyword .raise)
      (message : s.tail.head.kind = .string) :
      Reads (.term place) s
        (.raise ⟨s.head.span.start, s.tail.head.span.stop⟩ s.tail.head.lexeme) s.tail.tail
  | item {place s only t} (whole : Reads (.expression place) s only t)
      (end_ : t.head.kind ≠ .symbol .comma) : Reads (.items place) s [only] t
  | items {place s first t rest u} (head : Reads (.expression place) s first t)
      (comma : t.head.kind = .symbol .comma) (tail : Reads (.items place) t.tail rest u) :
      Reads (.items place) s (first :: rest) u
  | empty {closing place s} (at_ : s.head.kind = .symbol closing) :
      Reads (.list closing place) s [] s.tail
  | list {closing place s elements t} (filled : s.head.kind ≠ .symbol closing)
      (inside : Reads (.items place) s elements t) (at_ : t.head.kind = .symbol closing) :
      Reads (.list closing place) s elements t.tail
  | lastName {s} (kind : s.head.kind = .ident) (end_ : s.tail.head.kind ≠ .symbol .comma) :
      Reads .names s [s.head.lexeme] s.tail
  | names {s rest t} (kind : s.head.kind = .ident) (comma : s.tail.head.kind = .symbol .comma)
      (tail : Reads .names s.tail.tail rest t) : Reads .names s (s.head.lexeme :: rest) t
  | noParams {s} (opening : s.head.kind = .symbol .pipe)
      (closing : s.tail.head.kind = .symbol .pipe) : Reads .params s [] s.tail.tail
  | params {s names t} (opening : s.head.kind = .symbol .pipe)
      (filled : s.tail.head.kind ≠ .symbol .pipe) (inside : Reads .names s.tail names t)
      (closing : t.head.kind = .symbol .pipe) : Reads .params s names t.tail
  | noProperties {place s} (end_ : s.head.kind = .eof ∨ s.head.kind = .symbol .rbrace) :
      Reads (.properties place) s [] s
  | short {place s rest t} (key : s.head.kind = .ident)
      (comma : s.tail.head.kind = .symbol .comma)
      (tail : Reads (.properties place) s.tail.tail rest t) :
      Reads (.properties place) s (.mk s.head.span s.head.lexeme .missing :: rest) t
  | lastShort {place s rest t} (key : s.head.kind = .ident)
      (closing : s.tail.head.kind = .symbol .rbrace)
      (tail : Reads (.properties place) s.tail rest t) :
      Reads (.properties place) s (.mk s.head.span s.head.lexeme .missing :: rest) t
  | valued {place s value t rest u} (key : s.head.kind = .ident)
      (colon : s.tail.head.kind = .symbol .colon)
      (follow : Reads (.expression place) s.tail.tail value t)
      (comma : t.head.kind = .symbol .comma)
      (tail : Reads (.properties place) t.tail rest u) :
      Reads (.properties place) s
        (.mk ⟨s.head.span.start, t.behind⟩ s.head.lexeme value :: rest) u
  | lastValued {place s value t rest u} (key : s.head.kind = .ident)
      (colon : s.tail.head.kind = .symbol .colon)
      (follow : Reads (.expression place) s.tail.tail value t)
      (closing : t.head.kind = .symbol .rbrace) (tail : Reads (.properties place) t rest u) :
      Reads (.properties place) s
        (.mk ⟨s.head.span.start, t.behind⟩ s.head.lexeme value :: rest) u

end Grammar
end Tide
