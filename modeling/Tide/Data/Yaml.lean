import Tide.Data.Datum
import Tide.Data.Plain
import Tide.Number.Layout
import Tide.Text.Utf8

/-!
# YAML

Data written as nested blocks, two blanks for each level, with lists indented below their key. A
string is written bare when it can be. Otherwise it gets single quotes, double quotes when only
escapes will do or when the bare word would be read as something else, and a literal block when it
has several lines. Bytes that are no text are written in base 64 under a tag of their own.
-/
namespace Tide

namespace Yaml

def spaces (n : Nat) : Bytes := List.replicate n ' '.toUInt8

/-! ### What a string contains -/

def isBreak (c : Char) : Bool :=
  c = '\n' || c = '\r' || c = '\u0085' || c = '\u2028' || c = '\u2029'

def isBlankChar (c : Char) : Bool := c = ' ' || c = '\t'

/-- Written without an escape; characters beyond the sixteen-bit range never are. -/
def isPrintable (c : Char) : Bool :=
  let n := c.toNat
  n = 0x0A || 0x20 ≤ n && n ≤ 0x7E || 0xA0 ≤ n && n ≤ 0xFFFD && n != 0xFEFF

/-- A character with its neighbours: whether a blank or the edge of the string is before and
behind it. -/
structure Located where
  char : Char
  first : Bool
  afterBlank : Bool
  beforeBlank : Bool

def locateFrom (first afterBlank : Bool) : List Char → List Located
  | [] => []
  | [c] => [⟨c, first, afterBlank, true⟩]
  | c :: d :: rest =>
    ⟨c, first, afterBlank, isBlankChar d⟩ ::
      locateFrom false (isBlankChar c || isBreak c || c = '\x00') (d :: rest)

/-- Whether a character in its place would be taken for punctuation of the format. -/
def isIndicator (l : Located) : Bool :=
  if l.first then
    l.char ∈ ['#', ',', '[', ']', '\x7b', '\x7d', '&', '*', '!', '|', '>', '\'', '"', '%', '@',
      '\x60'] || l.char ∈ ['?', ':', '-'] && l.beforeBlank
  else l.char = ':' && l.beforeBlank || l.char = '#' && l.afterBlank

/-- Whether two neighbours satisfy a condition anywhere. -/
def anyAdjacent (p : Char → Char → Bool) : List Char → Bool
  | a :: b :: rest => p a b || anyAdjacent p (b :: rest)
  | _ => false

def isMarker (cs : List Char) : Bool :=
  ['-', '-', '-'].isPrefixOf cs || ['.', '.', '.'].isPrefixOf cs

structure Shape where
  hasBreak : Bool
  hasIndicator : Bool
  hasTab : Bool
  hasSpecial : Bool
  spaceAtEdge : Bool
  breakAtEdge : Bool
  spaceAtEnd : Bool
  breakThenSpace : Bool
  spaceThenBreak : Bool

def shape (cs : List Char) : Shape where
  hasBreak := cs.any isBreak
  hasIndicator := isMarker cs || (locateFrom true true cs).any isIndicator
  hasTab := '\t' ∈ cs
  hasSpecial := cs.any fun c => c != '\t' && !isPrintable c
  spaceAtEdge := cs.head? = some ' ' || cs.getLast? = some ' '
  breakAtEdge := (cs.head?.map isBreak).getD false || (cs.getLast?.map isBreak).getD false
  spaceAtEnd := cs.getLast? = some ' '
  breakThenSpace := anyAdjacent (fun a b => isBreak a && b = ' ') cs
  spaceThenBreak := anyAdjacent (fun a b => a = ' ' && isBreak b) cs

def Shape.singleQuotes (s : Shape) : Bool :=
  !(s.breakThenSpace || s.spaceThenBreak || s.hasTab || s.hasSpecial)

def Shape.bare (s : Shape) : Bool :=
  s.singleQuotes && !(s.spaceAtEdge || s.breakAtEdge || s.hasBreak || s.hasIndicator)

def Shape.literal (s : Shape) : Bool := !(s.spaceAtEnd || s.spaceThenBreak || s.hasSpecial)

/-! ### Ways to write a string -/

def upperHex (width n : Nat) : Bytes :=
  (Bytes.hex width n).map fun b =>
    if 'a'.toUInt8 ≤ b && b ≤ 'f'.toUInt8 then b - 32 else b

def escapeName (c : Char) : Option Char :=
  match c with
  | '\x00' => some '0'
  | '\x07' => some 'a'
  | '\x08' => some 'b'
  | '\t' => some 't'
  | '\n' => some 'n'
  | '\x0b' => some 'v'
  | '\x0c' => some 'f'
  | '\r' => some 'r'
  | '\x1b' => some 'e'
  | '"' => some '"'
  | '\\' => some '\\'
  | '\u0085' => some 'N'
  | '\u00A0' => some '_'
  | '\u2028' => some 'L'
  | '\u2029' => some 'P'
  | _ => none

def escapeChar (c : Char) : Bytes :=
  if isPrintable c && !isBreak c && c != '"' && c != '\\' then String.utf8EncodeChar c
  else match escapeName c with
    | some name => utf8 "\\" ++ String.utf8EncodeChar name
    | none =>
      if c.toNat ≤ 0xFF then utf8 "\\x" ++ upperHex 2 c.toNat
      else if c.toNat ≤ 0xFFFF then utf8 "\\u" ++ upperHex 4 c.toNat
      else utf8 "\\U" ++ upperHex 8 c.toNat

def doubleQuoted (cs : List Char) : Bytes := utf8 "\"" ++ cs.flatMap escapeChar ++ utf8 "\""

/-- Text over several lines, `write` saying how a character is written. The first character behind
a break starts a line at `indent`; `lineStart` tells whether the line is still empty. -/
def brokenLines (indent : Nat) (write : Char → Bytes) : Bool → Bool → List Char → Bytes
  | _, _, [] => []
  | behindBreak, lineStart, c :: rest =>
    if isBreak c then String.utf8EncodeChar c ++ brokenLines indent write true true rest
    else
      let start := if behindBreak then (if lineStart then [] else utf8 "\n") ++ spaces indent
        else []
      start ++ write c ++ brokenLines indent write false false rest

def doubleQuote (c : Char) : Bytes := if c = '\'' then utf8 "''" else String.utf8EncodeChar c

def singleQuoted (indent : Nat) (cs : List Char) : Bytes :=
  utf8 "'" ++ brokenLines indent doubleQuote false false cs ++ utf8 "'"

/-- How the breaks at the end of a block are to be read, and its indentation if its first line
does not show it. -/
def blockHints (cs : List Char) : Bytes :=
  let lead := match cs with
    | c :: _ => if c = ' ' || isBreak c then utf8 "2" else []
    | [] => []
  let chomp := match cs.reverse with
    | [] => utf8 "-"
    | [c] => if isBreak c then utf8 "+" else utf8 "-"
    | c :: d :: _ => if !isBreak c then utf8 "-" else if isBreak d then utf8 "+" else []
  lead ++ chomp

/-- A literal block; when its last line is ended by a break of its own, no other follows. -/
def literalBlock (indent : Nat) (cs : List Char) : Bytes :=
  utf8 "|" ++ blockHints cs ++ brokenLines indent String.utf8EncodeChar true false cs

/-- The text and whether it already ends the line. -/
def textOf (indent : Nat) (cs : List Char) (bare : Bool) : Bytes × Bool :=
  let s := shape cs
  if '\n' ∈ cs then
    if s.literal then (literalBlock indent cs, (cs.getLast?.map isBreak).getD false)
    else (doubleQuoted cs, false)
  else if bare then
    if s.bare then (cs.flatMap String.utf8EncodeChar, false)
    else if s.singleQuotes then (singleQuoted indent cs, false)
    else (doubleQuoted cs, false)
  else (doubleQuoted cs, false)

/-! ### Base 64 -/

def base64Char (n : Nat) : Char :=
  if n < 26 then Char.ofNat (65 + n)
  else if n < 52 then Char.ofNat (71 + n)
  else if n < 62 then Char.ofNat (n - 4)
  else if n = 62 then '+' else '/'

def base64 : Bytes → List Char
  | [] => []
  | [a] => [base64Char (a.toNat / 4), base64Char (a.toNat % 4 * 16), '=', '=']
  | [a, b] =>
    let n := a.toNat * 256 + b.toNat
    [base64Char (n / 1024), base64Char (n / 16 % 64), base64Char (n % 16 * 4), '=']
  | a :: b :: c :: rest =>
    let n := (a.toNat * 256 + b.toNat) * 256 + c.toNat
    base64Char (n / 262144) :: base64Char (n / 4096 % 64) :: base64Char (n / 64 % 64) ::
      base64Char (n % 64) :: base64 rest

/-- Each run of `width` characters with a line feed behind it. The number bounds the runs. -/
def runs (width : Nat) (cs : List Char) : Nat → List Char
  | 0 => []
  | limit + 1 => if cs.isEmpty then [] else cs.take width ++ ['\n'] ++ runs width (cs.drop width) limit

/-- Long encodings are cut into lines of seventy characters. -/
def wrapLines (cs : List Char) : List Char :=
  if cs.length < 70 then cs else runs 70 cs cs.length

/-- A string in the style it needs. -/
def string (indent : Nat) (s : Bytes) : Bytes × Bool :=
  if Utf8.wellFormed s then
    textOf indent ((Utf8.pieces s).map Piece.char) (Plain.isSafe s)
  else
    let (text, ended) := textOf indent (wrapLines (base64 s)) true
    (utf8 "!!binary " ++ text, ended)

def endLine (text : Bytes × Bool) : Bytes := if text.2 then text.1 else text.1 ++ utf8 "\n"

/-- A scalar, or an empty collection, up to the end of its line. -/
def scalar (indent : Nat) : Datum → Bytes
  | .null => utf8 "null\n"
  | .bool b => utf8 (if b then "true\n" else "false\n")
  | .int n => Bytes.ofInt n ++ utf8 "\n"
  | .float x => NumberLayout.yaml.render x ++ utf8 "\n"
  | .text s => endLine (string indent s)
  | .list _ => utf8 "[]\n"
  | .record _ => utf8 "\x7b\x7d\n"

mutual

/-- A datum whose first line is already indented, its further lines at `indent`. -/
def block (indent : Nat) : Datum → Bytes
  | .list (item :: rest) => utf8 "- " ++ block (indent + 2) item ++ items indent rest
  | .record ((key, value) :: rest) =>
    utf8 key ++ utf8 ":" ++ below indent value ++ fields indent rest
  | d => scalar indent d

/-- A datum behind its key: on the same line, or below it one level deeper. -/
def below (indent : Nat) : Datum → Bytes
  | .list (item :: rest) =>
    utf8 "\n" ++ spaces (indent + 2) ++ utf8 "- " ++ block (indent + 4) item ++
      items (indent + 2) rest
  | .record ((key, value) :: rest) =>
    utf8 "\n" ++ spaces (indent + 2) ++ utf8 key ++ utf8 ":" ++ below (indent + 2) value ++
      fields (indent + 2) rest
  | d => utf8 " " ++ scalar (indent + 2) d

def items (indent : Nat) : List Datum → Bytes
  | [] => []
  | item :: rest => spaces indent ++ utf8 "- " ++ block (indent + 2) item ++ items indent rest

def fields (indent : Nat) : List (String × Datum) → Bytes
  | [] => []
  | (key, value) :: rest =>
    spaces indent ++ utf8 key ++ utf8 ":" ++ below indent value ++ fields indent rest

end

end Yaml

def Datum.toYaml (d : Datum) : Bytes := Yaml.block 0 d

end Tide
