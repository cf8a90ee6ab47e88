import Tide.Text.Ranges
import Tide.Text.Utf8

/-!
# Blank characters

The white space of Unicode: the ASCII blanks, the next-line control, the no-break space and the
spaces and separators of general use. Only trimming an input line looks at it; between tokens the
scanner knows four ASCII blanks.
-/
namespace Tide

def blankRanges : Ranges := [
  (0x9, 0xD), (0x20, 0x20), (0x85, 0x85), (0xA0, 0xA0), (0x1680, 0x1680), (0x2000, 0x200A),
  (0x2028, 0x2029), (0x202F, 0x202F), (0x205F, 0x205F), (0x3000, 0x3000)]

/-- Trimmed from the ends of a line. -/
def isBlank (c : Char) : Bool := Ranges.has blankRanges c.toNat

def Piece.isBlank : Piece → Bool
  | .scalar c => Tide.isBlank c
  | .invalid _ => false

/-- A text with the blanks at both ends taken away. -/
def Bytes.trim (s : Bytes) : Bytes :=
  let front := (Utf8.pieces s).dropWhile Piece.isBlank
  ((front.reverse.dropWhile Piece.isBlank).reverse).flatMap Piece.bytes

end Tide
