import Tide.Text.Bytes

/-!
# Places in a source text

Offsets count bytes from zero, lines and columns count from one. The three are carried together
and never derived from each other, so a place can be reported without the text it belongs to. The
numbers are integers because trees and diagnostics may also be built from places that no scan has
produced.
-/
namespace Tide

structure Position where
  offset : Int
  line : Int
  column : Int
deriving DecidableEq, Repr, Inhabited

namespace Position

def zero : Position := ⟨0, 0, 0⟩

/-- Where scanning begins. -/
def first : Position := ⟨0, 1, 1⟩

def render (p : Position) : Bytes := Bytes.ofInt p.line ++ utf8 ":" ++ Bytes.ofInt p.column

/-- The place behind one byte; only a line feed starts a line. -/
def next (p : Position) (b : UInt8) : Position :=
  if b = '\n'.toUInt8 then ⟨p.offset + 1, p.line + 1, 1⟩
  else ⟨p.offset + 1, p.line, p.column + 1⟩

/-- The place behind `columns` characters of the same line that take `width` bytes. -/
def forward (p : Position) (width columns : Nat) : Position :=
  ⟨p.offset + width, p.line, p.column + columns⟩

end Position

/-- The bytes from `start` up to, but not including, `stop`. -/
structure Span where
  start : Position
  stop : Position
deriving DecidableEq, Repr, Inhabited

namespace Span

def zero : Span := ⟨.zero, .zero⟩

def render (s : Span) : Bytes := s.start.render ++ utf8 ".." ++ s.stop.render

def length (s : Span) : Int := s.stop.offset - s.start.offset

/-- The smallest span that covers both, judged by offsets; on a tie the left place is kept. -/
def join (a b : Span) : Span where
  start := if b.start.offset < a.start.offset then b.start else a.start
  stop := if b.stop.offset > a.stop.offset then b.stop else a.stop

end Span
end Tide
