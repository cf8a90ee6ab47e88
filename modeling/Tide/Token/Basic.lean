import Tide.Source.Span
import Tide.Text.Quoted
import Tide.Token.Kind

/-!
# Tokens

The lexeme of a string is its value, with quotes and escapes already undone; every other lexeme is
the source text that the span covers.
-/
namespace Tide

structure Token where
  kind : Kind
  lexeme : Bytes
  span : Span
deriving DecidableEq, Repr, Inhabited

namespace Token

/-- What stands behind the last token of a list that has no end token of its own. -/
def missingEnd : Token := ⟨.eof, [], .zero⟩

def render (t : Token) : Bytes :=
  t.kind.render ++ utf8 " " ++ quoteText t.lexeme ++ utf8 " " ++ t.span.start.render

/-- How a message names the token that it did not expect. -/
def describe (t : Token) : Bytes :=
  match t.kind with
  | .eof => utf8 "end of input"
  | .ident | .number | .float => Bytes.quoted t.lexeme
  | .string => quoteText t.lexeme
  | kind => Bytes.quoted kind.render

end Token
end Tide
