import Tide.Text.Bytes

/-!
# Open brackets

Whether a text is complete is judged by its brackets alone: parentheses, braces and square
brackets outside of strings and comments, all counted together. A comment that is still open
counts as one bracket more, and a string that is still open as none.
-/
namespace Tide

namespace Bracket

/-- What the bytes at hand belong to. -/
inductive Inside where
  | code
  | string (quote : UInt8)
  | comment
deriving DecidableEq, Repr

def isOpening (b : UInt8) : Bool :=
  b = '('.toUInt8 || b = '\x7b'.toUInt8 || b = '['.toUInt8

def isClosing (b : UInt8) : Bool :=
  b = ')'.toUInt8 || b = '\x7d'.toUInt8 || b = ']'.toUInt8

def isQuote (b : UInt8) : Bool := b = '"'.toUInt8 || b = '\''.toUInt8

def weight (b : UInt8) : Int := if isOpening b then 1 else if isClosing b then -1 else 0

/-- The brackets left open by what follows, read in the given state. -/
def openFrom : Inside → Bytes → Int
  | .comment, [] => 1
  | _, [] => 0
  | .code, b :: rest =>
    if isQuote b then openFrom (.string b) rest
    else match rest with
      | [] => weight b
      | c :: later =>
        if b = '/'.toUInt8 ∧ c = '*'.toUInt8 then openFrom .comment later
        else weight b + openFrom .code (c :: later)
  | .string quote, b :: rest =>
    if b = '\\'.toUInt8 then
      match rest with
      | [] => 0
      | _ :: later => openFrom (.string quote) later
    else if b = quote then openFrom .code rest
    else openFrom (.string quote) rest
  | .comment, b :: rest =>
    match rest with
    | [] => openFrom .comment []
    | c :: later =>
      if b = '*'.toUInt8 ∧ c = '/'.toUInt8 then openFrom .code later
      else openFrom .comment (c :: later)

end Bracket

def bracketDepth (source : Bytes) : Int := Bracket.openFrom .code source

end Tide
