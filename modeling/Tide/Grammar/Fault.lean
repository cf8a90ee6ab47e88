import Tide.Source.Diagnostic
import Tide.Token.Basic

/-!
# What can be wrong with a program

The causes for which a token list is refused, and their wording. A cause keeps the token that was
found where another was wanted; the place it is reported at is not part of it.
-/
namespace Tide

inductive SyntaxFault where
  | expected (wanted : Kind) (found : Token)
  | expectedProperty (found : Token)
  | unexpected (found : Token)
  | uninitializedConstant (name : Bytes)
  | expectedInitializer (name : Bytes) (found : Token)
  | returnOutsideFunction
  | returnInExpression
  | strayElse
  | emptyCondition
  | loneSign (sign : Bytes)
  | reserved (word : Kind)
  | invalidNumber (text : Bytes)
  | raiseWithoutText (found : Token)
  | delWithoutName (found : Token)
deriving DecidableEq, Repr

namespace SyntaxFault

def code : SyntaxFault → String
  | .expected .. | .expectedProperty _ => "E2001"
  | .unexpected _ => "E2002"
  | .uninitializedConstant _ | .expectedInitializer .. => "E2003"
  | .returnOutsideFunction | .returnInExpression => "E2004"
  | .strayElse => "E2005"
  | .emptyCondition => "E2006"
  | .loneSign _ => "E2007"
  | .reserved _ => "E2008"
  | .invalidNumber _ => "E2009"
  | .raiseWithoutText _ => "E2010"
  | .delWithoutName _ => "E2011"

def text : SyntaxFault → Bytes
  | .expected wanted found =>
    utf8 "expected " ++ Bytes.quoted wanted.render ++ utf8 ", got " ++ found.describe
  | .expectedProperty found => utf8 "expected property name after '.', got " ++ found.describe
  | .unexpected found => utf8 "unexpected " ++ found.describe
  | .uninitializedConstant name =>
    utf8 "constant " ++ Bytes.quoted name ++ utf8 " must be initialized"
  | .expectedInitializer name found =>
    utf8 "expected '=' or ';' after " ++ Bytes.quoted name ++ utf8 ", got " ++ found.describe
  | .returnOutsideFunction => utf8 "return outside of a function body"
  | .returnInExpression => utf8 "return is not allowed inside an expression"
  | .strayElse => utf8 "'else' without a preceding 'if'"
  | .emptyCondition => utf8 "if condition must not be empty"
  | .loneSign sign =>
    utf8 "sign " ++ Bytes.quoted sign ++ utf8 " is only supported before a number literal"
  | .reserved word => Bytes.quoted word.render ++ utf8 " is reserved and not supported"
  | .invalidNumber text => utf8 "invalid number literal " ++ quoteText text
  | .raiseWithoutText found => utf8 "raise expects a string literal, got " ++ found.describe
  | .delWithoutName found => utf8 "del expects an identifier, got " ++ found.describe

def hint : SyntaxFault → Bytes
  | .returnInExpression => utf8 "return must start a statement of the function body"
  | _ => []

def diagnostic (fault : SyntaxFault) (span : Span) : Diagnostic :=
  { code := fault.code, severity := .error, text := fault.text, span, hint := fault.hint }

end SyntaxFault
end Tide
