/-!
# Byte strings

Programs are handed over as bytes that need not be well-formed text, and whatever stands between
quotes is carried through unchanged. Source, names, string values and messages are therefore byte
lists, and fixed wording enters them through `utf8`.
-/
namespace Tide

abbrev Bytes := List UInt8

/-- Spelled out over the characters, so that the bytes of a literal can be read off by reduction. -/
def utf8 (s : String) : Bytes := s.toList.flatMap String.utf8EncodeChar

namespace Bytes

def ofNat (n : Nat) : Bytes := (Nat.toDigits 10 n).map Char.toUInt8

def ofInt : Int → Bytes
  | .ofNat n => ofNat n
  | .negSucc n => '-'.toUInt8 :: ofNat (n + 1)

/-- Lower-case hexadecimal digits, padded with zeros to `width`. -/
def hex (width n : Nat) : Bytes :=
  let digits := (Nat.toDigits 16 n).map Char.toUInt8
  List.replicate (width - digits.length) '0'.toUInt8 ++ digits

def join (separator : Bytes) (parts : List Bytes) : Bytes := List.intercalate separator parts

def quoted (s : Bytes) : Bytes := utf8 "'" ++ s ++ utf8 "'"

/-- Unsigned bytewise order, which on well-formed text is the order of code points. -/
def sort (names : List Bytes) : List Bytes := names.mergeSort fun a b => decide (a ≤ b)

end Bytes
end Tide
