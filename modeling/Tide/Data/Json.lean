import Tide.Data.Datum
import Tide.Number.Layout
import Tide.Text.Utf8

/-!
# JSON

Data written over several lines, two blanks for each level. Characters that mean something to a
web page are escaped as well as those that JSON itself forbids, and a stray byte becomes the
replacement character.
-/
namespace Tide

namespace Json

def escapeChar (c : Char) : Bytes :=
  if c = '"' ∨ c = '\\' then utf8 "\\" ++ String.utf8EncodeChar c
  else if c = '\n' then utf8 "\\n"
  else if c = '\r' then utf8 "\\r"
  else if c = '\t' then utf8 "\\t"
  else if c = '\x08' then utf8 "\\b"
  else if c = '\x0c' then utf8 "\\f"
  else if c < ' ' ∨ c = '<' ∨ c = '>' ∨ c = '&' ∨ c = '\u2028' ∨ c = '\u2029' then
    utf8 "\\u" ++ Bytes.hex 4 c.toNat
  else String.utf8EncodeChar c

def escapePiece : Piece → Bytes
  | .scalar c => escapeChar c
  | .invalid _ => utf8 "\\ufffd"

def string (s : Bytes) : Bytes := utf8 "\"" ++ (Utf8.pieces s).flatMap escapePiece ++ utf8 "\""

def newline (depth : Nat) : Bytes := utf8 "\n" ++ List.replicate (2 * depth) ' '.toUInt8

/-- Parts on lines of their own between two brackets, or the brackets alone. -/
def bracketed (depth : Nat) (opening closing : String) (parts : List Bytes) : Bytes :=
  if parts.isEmpty then utf8 opening ++ utf8 closing
  else utf8 opening ++ newline (depth + 1) ++
    Bytes.join (utf8 "," ++ newline (depth + 1)) parts ++ newline depth ++ utf8 closing

mutual

def value (depth : Nat) : Datum → Bytes
  | .null => utf8 "null"
  | .bool b => utf8 (if b then "true" else "false")
  | .int n => Bytes.ofInt n
  | .float x => NumberLayout.json.render x
  | .text s => string s
  | .list items => bracketed depth "[" "]" (values (depth + 1) items)
  | .record fields => bracketed depth "\x7b" "\x7d" (members (depth + 1) fields)

def values (depth : Nat) : List Datum → List Bytes
  | [] => []
  | item :: rest => value depth item :: values depth rest

def members (depth : Nat) : List (String × Datum) → List Bytes
  | [] => []
  | (key, item) :: rest =>
    (string (utf8 key) ++ utf8 ": " ++ value depth item) :: members depth rest

end

end Json

def Datum.toJson (d : Datum) : Bytes := Json.value 0 d ++ utf8 "\n"

end Tide
