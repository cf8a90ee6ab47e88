import Tide.Text.Printable
import Tide.Text.Utf8

/-!
# Quoted text

Strings inside messages and inside printed arrays and objects are shown between quotes, with
escapes for whatever would not survive on a line of text. Printable characters stand for
themselves, the usual controls have a letter, a stray byte and the remaining ASCII controls have
two hexadecimal digits, and everything else has four or eight.

`Literal.encode` is a different and smaller quoting: it writes a string literal of the language,
whose scanner copies every byte but four.
-/
namespace Tide

def controlLetter : Char → Option Char
  | '\x07' => some 'a'
  | '\x08' => some 'b'
  | '\x0c' => some 'f'
  | '\n' => some 'n'
  | '\r' => some 'r'
  | '\t' => some 't'
  | '\x0b' => some 'v'
  | _ => none

def escapeScalar (quote c : Char) : Bytes :=
  if c = quote ∨ c = '\\' then utf8 "\\" ++ String.utf8EncodeChar c
  else if isPrintable c then String.utf8EncodeChar c
  else match controlLetter c with
    | some letter => utf8 "\\" ++ String.utf8EncodeChar letter
    | none =>
      if c < ' ' ∨ c = '\x7f' then utf8 "\\x" ++ Bytes.hex 2 c.toNat
      else if c.toNat < 0x10000 then utf8 "\\u" ++ Bytes.hex 4 c.toNat
      else utf8 "\\U" ++ Bytes.hex 8 c.toNat

def escapePiece (quote : Char) : Piece → Bytes
  | .scalar c => escapeScalar quote c
  | .invalid b => utf8 "\\x" ++ Bytes.hex 2 b.toNat

/-- A string between double quotes, as messages and printed collections show it. -/
def quoteText (s : Bytes) : Bytes :=
  utf8 "\"" ++ (Utf8.pieces s).flatMap (escapePiece '"') ++ utf8 "\""

/-- One character between single quotes. -/
def quoteChar (c : Char) : Bytes := utf8 "'" ++ escapeScalar '\'' c ++ utf8 "'"

namespace Literal

def encodeByte (b : UInt8) : Bytes :=
  if b = '"'.toUInt8 ∨ b = '\\'.toUInt8 then ['\\'.toUInt8, b]
  else if b = '\n'.toUInt8 then utf8 "\\n"
  else if b = '\t'.toUInt8 then utf8 "\\t"
  else [b]

/-- The literal that scans back to `s`. -/
def encode (s : Bytes) : Bytes := utf8 "\"" ++ s.flatMap encodeByte ++ utf8 "\""

end Literal
end Tide
