import Tide.Source.Diagnostic
import Tide.Text.Letter
import Tide.Text.Numeral
import Tide.Token.Basic

/-!
# Scanning

A source is cut into tokens from the left. Blanks and block comments separate tokens and leave no
trace; then the first byte decides: a quote opens a string, a digit a run of digits and dots, a
letter or an underscore a word, and any other byte has to be a symbol. Every token takes at least
one byte, which is why scanning ends.

Columns advance once per byte inside blanks, comments and behind a backslash, and once per
character inside words and strings.

The first fault stops the scan, and what was read before it is kept. An escape that means nothing
is only worth a warning and is copied as it stands.
-/
namespace Tide

inductive ScanFault where
  | unrecognized (c : Char)
  | unterminatedString
  | unterminatedComment
deriving DecidableEq, Repr

namespace ScanFault

def code : ScanFault → String
  | .unrecognized _ => "E1001"
  | .unterminatedString => "E1002"
  | .unterminatedComment => "E1003"

def text : ScanFault → Bytes
  | .unrecognized c => utf8 "unrecognized character " ++ quoteChar c ++ utf8 " in source"
  | .unterminatedString => utf8 "unterminated string literal"
  | .unterminatedComment => utf8 "unterminated block comment"

def diagnostic (fault : ScanFault) (span : Span) : Diagnostic :=
  { code := fault.code, severity := .error, text := fault.text, span }

end ScanFault

/-- The byte is named by the character of the same number, whatever encoding it was part of. -/
def unknownEscape (b : UInt8) (span : Span) : Diagnostic where
  code := "E1004"
  severity := .warning
  text := utf8 "unknown escape sequence \\" ++ String.utf8EncodeChar (Char.ofNat b.toNat) ++
    utf8 " kept verbatim"
  span := span

/-- A place in the source and everything that stands behind it. -/
structure Cursor where
  position : Position
  rest : Bytes
deriving DecidableEq, Repr, Inhabited

namespace Scan

def isSpace (b : UInt8) : Bool :=
  b = ' '.toUInt8 || b = '\t'.toUInt8 || b = '\r'.toUInt8 || b = '\n'.toUInt8

def isDigit (b : UInt8) : Bool := '0'.toUInt8 ≤ b && b ≤ '9'.toUInt8

def isQuote (b : UInt8) : Bool := b = '"'.toUInt8 || b = '\''.toUInt8

def isNameStart (c : Char) : Bool := c = '_' || isLetter c

def isNamePart (c : Char) : Bool := c = '_' || isLetter c || isNumeral c

/-- Skips blanks and comments. The first argument is the place where a comment was opened that is
still open; reaching the end inside one is the only failure. -/
def skipTrivia : Option Position → Position → Bytes → Except Span Cursor
  | none, p, [] => .ok ⟨p, []⟩
  | some opened, p, [] => .error ⟨opened, p⟩
  | none, p, [b] => if isSpace b then skipTrivia none (p.next b) [] else .ok ⟨p, [b]⟩
  | some opened, p, [b] => skipTrivia (some opened) (p.next b) []
  | none, p, b :: c :: rest =>
    if isSpace b then skipTrivia none (p.next b) (c :: rest)
    else if b = '/'.toUInt8 ∧ c = '*'.toUInt8 then
      skipTrivia (some p) ((p.next b).next c) rest
    else .ok ⟨p, b :: c :: rest⟩
  | some opened, p, b :: c :: rest =>
    if b = '*'.toUInt8 ∧ c = '/'.toUInt8 then
      skipTrivia none ((p.next b).next c) rest
    else skipTrivia (some opened) (p.next b) (c :: rest)

/-- What a backslash and the byte behind it stand for. -/
def unescape (b : UInt8) : Option Bytes :=
  if b = 'n'.toUInt8 then some ['\n'.toUInt8]
  else if b = 't'.toUInt8 then some ['\t'.toUInt8]
  else if b = '\\'.toUInt8 ∨ b = '"'.toUInt8 ∨ b = '\''.toUInt8 then some [b]
  else none

/-- The inside of a string literal: its value, the warnings on the way, and where it ended. -/
structure StringBody where
  value : Bytes
  warnings : List Diagnostic
  /-- Behind the closing quote, or the end of the source that came first. -/
  ended : Except Position Cursor

def readString (quote : UInt8) (p : Position) : Bytes → StringBody
  | [] => ⟨[], [], .error p⟩
  | b :: rest =>
    if b = quote then ⟨[], [], .ok ⟨p.next b, rest⟩⟩
    else if b = '\\'.toUInt8 then
      match rest with
      | [] => ⟨[b], [], .error (p.next b)⟩
      | e :: rest =>
        let after := (p.next b).next e
        let body := readString quote after rest
        match unescape e with
        | some bytes => { body with value := bytes ++ body.value }
        | none =>
          { body with
            value := b :: e :: body.value
            warnings := unknownEscape e ⟨p, after⟩ :: body.warnings }
    else if b < 0x80 then
      let body := readString quote (p.next b) rest
      { body with value := b :: body.value }
    else
      let first := Utf8.uncons b rest
      let body := readString quote (p.forward first.1.bytes.length 1) first.2
      { body with value := first.1.bytes ++ body.value }
termination_by bytes => bytes.length
decreasing_by
  · simp only [List.length_cons]
    omega
  · simp only [List.length_cons]
    omega
  · have shorter := Utf8.uncons_rest_length b rest
    simp only [List.length_cons]
    omega

/-- One step of the scan. -/
inductive Step where
  | token (token : Token) (warnings : List Diagnostic) (behind : Cursor)
  | finished (last : Token)
  | failed (fault : Diagnostic) (warnings : List Diagnostic)

def readQuoted (p : Position) (quote : UInt8) (rest : Bytes) : Step :=
  let body := readString quote (p.next quote) rest
  match body.ended with
  | .ok behind => .token ⟨.string, body.value, ⟨p, behind.position⟩⟩ body.warnings behind
  | .error stop => .failed (ScanFault.unterminatedString.diagnostic ⟨p, stop⟩) body.warnings

/-- A run of digits and dots; whether it is a number at all is for the parser to say. -/
def readNumber (p : Position) (source : Bytes) : Step :=
  let inRun := fun b => isDigit b || b = '.'.toUInt8
  let lexeme := source.takeWhile inRun
  let kind := if '.'.toUInt8 ∈ lexeme then Kind.float else Kind.number
  let stop := p.forward lexeme.length lexeme.length
  .token ⟨kind, lexeme, ⟨p, stop⟩⟩ [] ⟨stop, source.dropWhile inRun⟩

def readWord (p : Position) (source : Bytes) : Step :=
  let word := Utf8.span isNamePart source
  let stop := p.forward word.1.length (Utf8.count word.1)
  .token ⟨Kind.ofWord word.1, word.1, ⟨p, stop⟩⟩ [] ⟨stop, word.2⟩

/-- The token at the cursor, where nothing is left to skip. -/
def readToken (cursor : Cursor) : Step :=
  let p := cursor.position
  match cursor.rest with
  | [] => .finished ⟨.eof, [], ⟨p, p⟩⟩
  | b :: rest =>
    if isQuote b then readQuoted p b rest
    else if isDigit b then readNumber p (b :: rest)
    else if isNameStart (Utf8.uncons b rest).1.char then readWord p (b :: rest)
    else match Symbol.ofByte? b with
      | some symbol => .token ⟨.symbol symbol, [b], ⟨p, p.next b⟩⟩ [] ⟨p.next b, rest⟩
      | none =>
        .failed ((ScanFault.unrecognized (Utf8.uncons b rest).1.char).diagnostic ⟨p, p⟩) []

def next (cursor : Cursor) : Step :=
  match skipTrivia none cursor.position cursor.rest with
  | .error span => .failed (ScanFault.unterminatedComment.diagnostic span) []
  | .ok cursor => readToken cursor

/-! ### Every token takes something -/

theorem skipTrivia_length (opened : Option Position) (p : Position) (bytes : Bytes)
    (cursor : Cursor) (skipped : skipTrivia opened p bytes = .ok cursor) :
    cursor.rest.length ≤ bytes.length := by
  fun_induction skipTrivia opened p bytes <;>
    grind

theorem span_rest_length (accept : Char → Bool) (bytes : Bytes) :
    (Utf8.span accept bytes).2.length ≤ bytes.length := by
  fun_induction Utf8.span accept bytes with
  | case1 => simp
  | case2 lead tail first accepted run ih =>
    have shorter : first.2.length ≤ tail.length := Utf8.uncons_rest_length lead tail
    exact Nat.le_trans (Nat.le_trans ih shorter) (Nat.le_succ _)
  | case3 => simp

theorem readString_length (quote : UInt8) (p : Position) (bytes : Bytes) (behind : Cursor)
    (ended : (readString quote p bytes).ended = .ok behind) :
    behind.rest.length < bytes.length := by
  fun_induction readString quote p bytes <;>
    grind [Utf8.uncons_rest_length]

theorem readNumber_length (p : Position) (b : UInt8) (rest : Bytes) (digit : isDigit b = true)
    (token : Token) (warnings : List Diagnostic) (behind : Cursor)
    (read : readNumber p (b :: rest) = .token token warnings behind) :
    behind.rest.length < (b :: rest).length := by
  simp only [readNumber, Step.token.injEq] at read
  obtain ⟨-, -, rfl⟩ := read
  simp only [List.dropWhile_cons, digit, Bool.true_or, if_true, List.length_cons]
  exact Nat.lt_succ_of_le (List.dropWhile_sublist _).length_le

theorem isNamePart_of_isNameStart (c : Char) (start : isNameStart c = true) :
    isNamePart c = true := by
  simp only [isNameStart, isNamePart, Bool.or_eq_true] at *
  exact Or.inl start

theorem readWord_length (p : Position) (b : UInt8) (rest : Bytes)
    (start : isNameStart (Utf8.uncons b rest).1.char = true)
    (token : Token) (warnings : List Diagnostic) (behind : Cursor)
    (read : readWord p (b :: rest) = .token token warnings behind) :
    behind.rest.length < (b :: rest).length := by
  simp only [readWord, Step.token.injEq] at read
  obtain ⟨-, -, rfl⟩ := read
  rw [Utf8.span]
  simp only [isNamePart_of_isNameStart _ start, if_true, List.length_cons]
  have shorter := Utf8.uncons_rest_length b rest
  have run := span_rest_length isNamePart (Utf8.uncons b rest).2
  omega

theorem readToken_length (cursor : Cursor) (token : Token) (warnings : List Diagnostic)
    (behind : Cursor) (read : readToken cursor = .token token warnings behind) :
    behind.rest.length < cursor.rest.length := by
  obtain ⟨p, source⟩ := cursor
  cases source with
  | nil => simp [readToken] at read
  | cons b rest =>
    simp only [readToken] at read
    split at read
    · simp only [readQuoted] at read
      split at read
      next ended =>
        obtain ⟨-, -, rfl⟩ := read
        have shorter := readString_length _ _ _ _ ended
        simp only [List.length_cons]
        omega
      next => simp at read
    split at read
    next digit => exact readNumber_length p b rest digit token warnings behind read
    split at read
    next start => exact readWord_length p b rest start token warnings behind read
    split at read
    · obtain ⟨-, -, rfl⟩ := read
      simp
    · simp at read

theorem next_length (cursor : Cursor) (token : Token) (warnings : List Diagnostic)
    (behind : Cursor) (read : next cursor = .token token warnings behind) :
    behind.rest.length < cursor.rest.length := by
  simp only [next] at read
  split at read
  · simp at read
  next skipped =>
    exact Nat.lt_of_lt_of_le (readToken_length _ _ _ _ read) (skipTrivia_length _ _ _ _ skipped)

end Scan

/-- A finished scan ends with an end token; a failed one holds what came before the fault. -/
structure Scanned where
  tokens : List Token
  warnings : List Diagnostic
  fault : Option Diagnostic
deriving Repr

def Scan.run (cursor : Cursor) : Scanned :=
  match _found : Scan.next cursor with
  | .finished last => ⟨[last], [], none⟩
  | .failed fault warnings => ⟨[], warnings, some fault⟩
  | .token token warnings behind =>
    let later := Scan.run behind
    ⟨token :: later.tokens, warnings ++ later.warnings, later.fault⟩
termination_by cursor.rest.length
decreasing_by exact Scan.next_length _ _ _ _ _found

def scan (source : Bytes) : Scanned := Scan.run ⟨.first, source⟩

end Tide
