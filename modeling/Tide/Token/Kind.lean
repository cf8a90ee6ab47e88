import Tide.Text.Bytes

/-!
# Token kinds

Every operator is scanned one character at a time. Two symbols that touch may spell one longer
operator, and `Kind.fuse` is the table of those pairs; the parser consults it where such an
operator could stand, so that `=>` behind a parameter list and `= >` anywhere else stay apart.

Kinds are also numbered, in the order of `Kind.all`. A number outside the list is a kind too, with
no role in the grammar and a name made from the number.
-/
namespace Tide

inductive Keyword where
  | fn | match_ | case | finally_ | continue_ | break_ | loop | for_ | else_ | not | xor | and
  | is | or | extend | immut | mut_ | public_ | return_ | await | async | export_ | catch_ | try_
  | del | from_ | pass | as | local_ | global | raise | import_ | lambda | private_ | class_
  | if_ | in_ | while_
deriving DecidableEq, Repr, Inhabited

namespace Keyword

/-- In order of their numbers. -/
def all : List Keyword :=
  [.fn, .match_, .case, .finally_, .continue_, .break_, .loop, .for_, .else_, .not, .xor, .and,
   .is, .or, .extend, .immut, .mut_, .public_, .return_, .await, .async, .export_, .catch_, .try_,
   .del, .from_, .pass, .as, .local_, .global, .raise, .import_, .lambda, .private_, .class_,
   .if_, .in_, .while_]

def name : Keyword → String
  | .fn => "fn" | .match_ => "match" | .case => "case" | .finally_ => "finally"
  | .continue_ => "continue" | .break_ => "break" | .loop => "loop" | .for_ => "for"
  | .else_ => "else" | .not => "not" | .xor => "xor" | .and => "and" | .is => "is" | .or => "or"
  | .extend => "extend" | .immut => "immut" | .mut_ => "mut" | .public_ => "public"
  | .return_ => "return" | .await => "await" | .async => "async" | .export_ => "export"
  | .catch_ => "catch" | .try_ => "try" | .del => "del" | .from_ => "from" | .pass => "pass"
  | .as => "as" | .local_ => "local" | .global => "global" | .raise => "raise"
  | .import_ => "import" | .lambda => "lambda" | .private_ => "private" | .class_ => "class"
  | .if_ => "if" | .in_ => "in" | .while_ => "while"

end Keyword

/-- The operators and punctuation of one character. -/
inductive Symbol where
  | minus | plus | star | slash | percent | gt | lt | assign | tilde | backtick | caret | comma
  | dot | colon | semicolon | pipe | lparen | rparen | lbrace | rbrace | lbracket | rbracket
  | bang | question | hash
deriving DecidableEq, Repr, Inhabited

namespace Symbol

/-- In order of their numbers. -/
def all : List Symbol :=
  [.minus, .plus, .star, .slash, .percent, .gt, .lt, .assign, .tilde, .backtick, .caret, .comma,
   .dot, .colon, .semicolon, .pipe, .lparen, .rparen, .lbrace, .rbrace, .lbracket, .rbracket,
   .bang, .question, .hash]

def char : Symbol → Char
  | .minus => '-' | .plus => '+' | .star => '*' | .slash => '/' | .percent => '%' | .gt => '>'
  | .lt => '<' | .assign => '=' | .tilde => '~' | .backtick => '\x60' | .caret => '^'
  | .comma => ',' | .dot => '.' | .colon => ':' | .semicolon => ';' | .pipe => '|'
  | .lparen => '(' | .rparen => ')' | .lbrace => '\x7b' | .rbrace => '\x7d' | .lbracket => '['
  | .rbracket => ']' | .bang => '!' | .question => '?' | .hash => '#'

def byte (s : Symbol) : UInt8 := s.char.toUInt8

def ofByte? (b : UInt8) : Option Symbol := all.find? (·.byte = b)

end Symbol

/-- The operators of two characters. -/
inductive Fused where
  | arrow | fatArrow | gte | lte | eq | neq
deriving DecidableEq, Repr, Inhabited

namespace Fused

def all : List Fused := [.arrow, .fatArrow, .gte, .lte, .eq, .neq]

def name : Fused → String
  | .arrow => "->" | .fatArrow => "=>" | .gte => ">=" | .lte => "<=" | .eq => "==" | .neq => "!="

def parts : Fused → Symbol × Symbol
  | .arrow => (.minus, .gt)
  | .fatArrow => (.assign, .gt)
  | .gte => (.gt, .assign)
  | .lte => (.lt, .assign)
  | .eq => (.assign, .assign)
  | .neq => (.bang, .assign)

def ofParts? (first second : Symbol) : Option Fused := all.find? (·.parts = (first, second))

end Fused

inductive Kind where
  | illegal
  | eof
  | number
  | float
  | string
  | ident
  | keyword (k : Keyword)
  | symbol (s : Symbol)
  | fused (f : Fused)
  /-- A number that belongs to no kind of the language. -/
  | unknown (index : Int)
deriving DecidableEq, Repr, Inhabited

namespace Kind

def all : List Kind :=
  [.illegal, .eof, .number, .float, .string, .ident] ++ Keyword.all.map .keyword ++
    Symbol.all.map .symbol ++ Fused.all.map .fused

def name : Kind → String
  | .illegal => "ILLEGAL"
  | .eof => "EOF"
  | .number => "NUMBER"
  | .float => "FLOAT"
  | .string => "STRING"
  | .ident => "IDENT"
  | .keyword k => k.name
  | .symbol s => s.char.toString
  | .fused f => f.name
  | .unknown index => "Kind(" ++ toString index ++ ")"

def render (k : Kind) : Bytes := utf8 k.name

def ofIndex : Int → Kind
  | .ofNat n => all[n]?.getD (.unknown n)
  | index => .unknown index

def ofName? (name : String) : Option Kind := all.find? (·.name == name)

def isKeyword : Kind → Bool
  | .keyword _ => true
  | _ => false

def isNumeric : Kind → Bool
  | .number | .float => true
  | _ => false

def isLiteral : Kind → Bool
  | .number | .float | .string | .ident => true
  | _ => false

/-- A word is a keyword when it is spelled like one, and a name otherwise. -/
def ofWord (word : Bytes) : Kind :=
  (Keyword.all.find? fun k => utf8 k.name == word).elim .ident .keyword

/-- The operator that `first` and `second` spell together. -/
def fuse : Kind → Kind → Option Fused
  | .symbol first, .symbol second => Fused.ofParts? first second
  | _, _ => none

end Kind
end Tide
