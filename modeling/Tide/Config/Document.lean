import Tide.Text.Utf8

/-!
# Reading a settings file

Settings files are written in a small part of YAML: nested blocks of `key: value` lines and of
`- item` lines, comments, bare and quoted words, and lists and maps in brackets that fit on a line.
Reading one gives a tree in which everything knows its line; what a bare word stands for is left
open. Only the first document of a file counts, and a file without one is an empty setting.

A line is kept with its indentation. Blocks belong together by equal indentation, and a value
that is not on the line of its key stands on deeper lines below it.
-/
namespace Tide

inductive Setting where
  /-- A word, and whether it stood without quotes. -/
  | word (line : Nat) (text : Bytes) (bare : Bool)
  | list (line : Nat) (items : List Setting)
  | map (line : Nat) (entries : List (Setting × Setting))

namespace Setting

def line : Setting → Nat
  | .word line .. | .list line _ | .map line _ => line

def empty (line : Nat) : Setting := .word line [] true

end Setting

namespace Document

def isBlank (b : UInt8) : Bool := b = ' '.toUInt8 || b = '\t'.toUInt8

def skipBlanks (s : Bytes) : Bytes := s.dropWhile isBlank

def trimEnd (s : Bytes) : Bytes := (s.reverse.dropWhile isBlank).reverse

def isByte (c : Char) (b : UInt8) : Bool := b = c.toUInt8

/-- Nothing, a blank, or the end of the line stands here. -/
def atGap : Bytes → Bool
  | [] => true
  | b :: _ => isBlank b

/-- A comment begins here. -/
def isComment (s : Bytes) : Bool := (s.head?.map (isByte '#')).getD false

/-- Only blanks and perhaps a comment are left. -/
def isLineEnd (s : Bytes) : Bool := (skipBlanks s).isEmpty || isComment (skipBlanks s)

/-! ### Words -/

def isFlowMark (b : UInt8) : Bool :=
  [',', '[', ']', '\x7b', '\x7d'].any (isByte · b)

/-- Marks that no bare word may begin with. -/
def isReserved (b : UInt8) : Bool :=
  isFlowMark b || ['#', '&', '*', '!', '|', '>', '\'', '"', '%', '@', '\x60'].any (isByte · b)

def startsWord (flow : Bool) : Bytes → Bool
  | [] => false
  | b :: rest =>
    if ['-', '?', ':'].any (isByte · b) then
      !(atGap rest || flow && (rest.head?.map isFlowMark).getD false)
    else !(isReserved b || isBlank b)

/-- A bare word ends at a colon or a comment set off by a blank, and between brackets also at their
punctuation. -/
def takeBare (flow afterBlank : Bool) : Bytes → Bytes × Bytes
  | [] => ([], [])
  | b :: rest =>
    let ends := isByte ':' b && (atGap rest || flow && (rest.head?.map isFlowMark).getD false) ||
      isByte '#' b && afterBlank || flow && isFlowMark b
    if ends then ([], b :: rest)
    else
      let (word, behind) := takeBare flow (isBlank b) rest
      (b :: word, behind)

def bareWord? (flow : Bool) (s : Bytes) : Option (Bytes × Bytes) :=
  if startsWord flow s then
    let word := trimEnd (takeBare flow false s).1
    some (word, s.drop word.length)
  else none

/-- Behind an opening single quote; a quote is written twice. -/
def takeSingle : Bytes → Option (Bytes × Bytes)
  | [] => none
  | [b] => if isByte '\'' b then some ([], []) else none
  | b :: c :: rest =>
    if isByte '\'' b then
      if isByte '\'' c then (takeSingle rest).map fun (word, behind) => (b :: word, behind)
      else some ([], c :: rest)
    else (takeSingle (c :: rest)).map fun (word, behind) => (b :: word, behind)

def hexDigit? (b : UInt8) : Option Nat :=
  if '0'.toUInt8 ≤ b && b ≤ '9'.toUInt8 then some (b.toNat - 48)
  else if 'a'.toUInt8 ≤ b && b ≤ 'f'.toUInt8 then some (b.toNat - 87)
  else if 'A'.toUInt8 ≤ b && b ≤ 'F'.toUInt8 then some (b.toNat - 55)
  else none

def hexNumber? (digits : Bytes) : Option Nat :=
  digits.foldlM (fun n b => (hexDigit? b).map (n * 16 + ·)) 0

/-- How many hexadecimal digits follow an escape, if any do. -/
def escapeDigits (b : UInt8) : Option Nat :=
  if isByte 'x' b then some 2
  else if isByte 'u' b then some 4
  else if isByte 'U' b then some 8
  else none

def escapes : List (Char × Char) :=
  [('0', '\x00'), ('a', '\x07'), ('b', '\x08'), ('t', '\t'), ('\t', '\t'), ('n', '\n'),
   ('v', '\x0b'), ('f', '\x0c'), ('r', '\r'), ('e', '\x1b'), (' ', ' '), ('"', '"'),
   ('\'', '\''), ('/', '/'), ('\\', '\\'), ('N', '\u0085'), ('_', '\u00A0'), ('L', '\u2028'),
   ('P', '\u2029')]

def escape? (b : UInt8) : Option Char :=
  (escapes.find? fun (name, _) => isByte name b).map (·.2)

def isScalarValue (n : Nat) : Bool := n < 0xD800 || 0xDFFF < n && n ≤ 0x10FFFF

/-- Behind an opening double quote. The number bounds the bytes that are left. -/
def takeDouble : Nat → Bytes → Option (Bytes × Bytes)
  | 0, _ => none
  | _, [] => none
  | limit + 1, b :: rest =>
    if isByte '"' b then some ([], rest)
    else if isByte '\\' b then
      match rest with
      | [] => none
      | e :: rest =>
        match escapeDigits e with
        | some width => do
          let digits := rest.take width
          let n ← if digits.length = width then hexNumber? digits else none
          let (word, behind) ← takeDouble limit (rest.drop width)
          if isScalarValue n then
            some (String.utf8EncodeChar (Char.ofNat n) ++ word, behind)
          else none
        | none => do
          let c ← escape? e
          let (word, behind) ← takeDouble limit rest
          return (String.utf8EncodeChar c ++ word, behind)
    else do
      let (word, behind) ← takeDouble limit rest
      return (b :: word, behind)

/-- A quoted word, if one begins here. -/
def quotedWord? : Bytes → Option (Option (Bytes × Bytes))
  | [] => none
  | b :: rest =>
    if isByte '"' b then some (takeDouble (rest.length + 1) rest)
    else if isByte '\'' b then some (takeSingle rest)
    else none

/-! ### Brackets on a line -/

def word? (flow : Bool) (line : Nat) (s : Bytes) : Option (Setting × Bytes) :=
  match quotedWord? s with
  | some found => found.map fun (text, behind) => (.word line text false, behind)
  | none => (bareWord? flow s).map fun (text, behind) => (.word line text true, behind)

/-- A colon that separates a key from its value between brackets. -/
def flowColon? (quoted : Bool) (s : Bytes) : Option Bytes :=
  match skipBlanks s with
  | b :: rest =>
    if isByte ':' b && (quoted || atGap rest || (rest.head?.map isFlowMark).getD false) then
      some rest
    else none
  | [] => none

def startsQuoted (s : Bytes) : Bool := (quotedWord? s).isSome

mutual

/-- A value between brackets. -/
def flow (line : Nat) : Nat → Bytes → Option (Setting × Bytes)
  | 0, _ => none
  | limit + 1, s =>
    match skipBlanks s with
    | [] => none
    | b :: rest =>
      if isByte '[' b then do
        let (items, behind) ← flowItems line limit rest
        return (.list line items, behind)
      else if isByte '\x7b' b then do
        let (entries, behind) ← flowEntries line limit rest
        return (.map line entries, behind)
      else word? true line (b :: rest)

/-- The items up to a closing square bracket. A key with a value is a map of its own. -/
def flowItems (line : Nat) : Nat → Bytes → Option (List Setting × Bytes)
  | 0, _ => none
  | limit + 1, s =>
    match skipBlanks s with
    | [] => none
    | b :: rest =>
      if isByte ']' b then some ([], rest)
      else do
        let (item, behind) ← flow line limit (b :: rest)
        let (item, behind) ← match flowColon? (startsQuoted (b :: rest)) behind with
          | some after => do
            let (value, behind) ← flowValue line limit after
            pure (Setting.map line [(item, value)], behind)
          | none => pure (item, behind)
        let (items, behind) ← flowMore line limit ']' behind
        return (item :: items, behind)

/-- What may follow an item: the closing bracket, or a comma and more items. -/
def flowMore (line : Nat) : Nat → Char → Bytes → Option (List Setting × Bytes)
  | 0, _, _ => none
  | limit + 1, closing, s =>
    match skipBlanks s with
    | [] => none
    | b :: rest =>
      if isByte closing b then some ([], rest)
      else if isByte ',' b then flowItems line limit rest
      else none

/-- A value behind a colon, which may be absent. -/
def flowValue (line : Nat) : Nat → Bytes → Option (Setting × Bytes)
  | 0, _ => none
  | limit + 1, s =>
    match skipBlanks s with
    | [] => none
    | b :: rest =>
      if [',', ']', '\x7d'].any (isByte · b) then some (.empty line, b :: rest)
      else flow line limit (b :: rest)

/-- The entries up to a closing brace. -/
def flowEntries (line : Nat) : Nat → Bytes → Option (List (Setting × Setting) × Bytes)
  | 0, _ => none
  | limit + 1, s =>
    match skipBlanks s with
    | [] => none
    | b :: rest =>
      if isByte '\x7d' b then some ([], rest)
      else do
        let (key, behind) ← flow line limit (b :: rest)
        let (value, behind) ← match flowColon? (startsQuoted (b :: rest)) behind with
          | some after => flowValue line limit after
          | none => pure (Setting.empty line, behind)
        match skipBlanks behind with
        | [] => none
        | c :: later =>
          if isByte '\x7d' c then some ([(key, value)], later)
          else if isByte ',' c then do
            let (entries, behind) ← flowEntries line limit later
            return ((key, value) :: entries, behind)
          else none

end

/-- A value that stands on one line, brackets or a word, and whether a comment follows it up to the
end of the line. -/
def inline? (line : Nat) (s : Bytes) : Option (Setting × Bool) :=
  let found := match s with
    | b :: _ =>
      if isByte '[' b || isByte '\x7b' b then flow line (2 * s.length + 2) s
      else word? false line s
    | [] => none
  match found with
  | some (setting, behind) =>
    if isLineEnd behind then some (setting, isComment (skipBlanks behind)) else none
  | none => none

/-! ### Lines -/

structure Line where
  number : Nat
  indent : Nat
  /-- Neither empty nor a comment, and without spaces in front. -/
  content : Bytes
  /-- Empty lines above it, up to the line before. -/
  gap : Nat
  /-- Whether there is a comment above it, up to the line before. -/
  commented : Bool

/-- The characters of a file, if it has no others than a settings file may have. -/
def characters? (source : Bytes) : Option (List Char) :=
  if Utf8.wellFormed source then
    let cs := (Utf8.pieces source).map Piece.char
    let cs := if cs.head? = some '\uFEFF' then cs.tail else cs
    if cs.all isAllowed then some cs else none
  else none
where
  isAllowed (c : Char) : Bool :=
    c ∈ ['\t', '\n', '\r', '\u0085'] || ' ' ≤ c && c ≤ '~' || '\u00A0' ≤ c && c ≤ '\uFFFD' &&
      c ≠ '\uFEFF' || '\uFFFF' < c

def isBreak (c : Char) : Bool := c ∈ ['\n', '\r', '\u0085', '\u2028', '\u2029']

/-- The lines with their numbers; a carriage return and a line feed end a line together. -/
def splitLines (number : Nat) (current : List Char) : List Char → List (Nat × Bytes)
  | [] => [(number, current.reverse.flatMap String.utf8EncodeChar)]
  | '\r' :: '\n' :: rest =>
    (number, current.reverse.flatMap String.utf8EncodeChar) :: splitLines (number + 1) [] rest
  | c :: rest =>
    if isBreak c then
      (number, current.reverse.flatMap String.utf8EncodeChar) :: splitLines (number + 1) [] rest
    else splitLines number (c :: current) rest

/-- The lines that say something. -/
def linesFrom (gap : Nat) (commented : Bool) : List (Nat × Bytes) → List Line
  | [] => []
  | (number, s) :: rest =>
    let content := s.dropWhile (isByte ' ')
    if content.isEmpty then linesFrom (gap + 1) commented rest
    else if isComment content then linesFrom gap true rest
    else ⟨number, s.length - content.length, content, gap, commented⟩ :: linesFrom 0 false rest

def isDash : Bytes → Bool
  | b :: rest => isByte '-' b && atGap rest
  | [] => false

/-- A key at the beginning of a line, and what stands behind its colon. -/
def key? (line : Line) : Option (Setting × Bytes) := do
  let (key, behind) ← word? false line.number line.content
  match skipBlanks behind with
  | b :: rest => if isByte ':' b && atGap rest then some (key, rest) else none
  | [] => none

/-- A bare word goes on over deeper lines. Each is joined on by a blank, or by the line breaks of
the empty lines above it; a comment ends the word. -/
def continueWord (least : Nat) (word : Bytes) (ended : Bool) :
    List Line → Option (Bytes × List Line)
  | [] => some (word, [])
  | next :: rest =>
    if next.indent < least || ended || next.commented then some (word, next :: rest)
    else
      let (more, behind) := takeBare false true next.content
      let join := if next.gap = 0 then utf8 " " else List.replicate next.gap '\n'.toUInt8
      if isLineEnd behind then
        continueWord least (word ++ join ++ trimEnd more) (isComment behind) rest
      else none

/-- Adds the deeper lines to a bare word; nothing else has any. -/
def settle (least : Nat) (rest : List Line) : Setting × Bool → Option (Setting × List Line)
  | (.word line text true, ended) => do
    let (text, rest) ← continueWord least text ended rest
    return (.word line text true, rest)
  | (other, _) => some (other, rest)

mutual

/-- The setting on lines indented by `least` or more, or an empty one if there are none. -/
def block : Nat → Nat → Nat → List Line → Option (Setting × List Line)
  | 0, _, _, _ => none
  | _, _, number, [] => some (.empty number, [])
  | limit + 1, least, number, line :: rest =>
    if line.indent < least then some (.empty number, line :: rest)
    else if isDash line.content then do
      let (items, rest) ← blockItems limit line.indent (line :: rest)
      return (.list line.number items, rest)
    else if (key? line).isSome then do
      let (entries, rest) ← blockEntries limit line.indent (line :: rest)
      return (.map line.number entries, rest)
    else do
      settle least rest (← inline? line.number line.content)

def blockItems : Nat → Nat → List Line → Option (List Setting × List Line)
  | 0, _, _ => none
  | _, _, [] => some ([], [])
  | limit + 1, indent, line :: rest =>
    if line.indent = indent && isDash line.content then do
      let content := skipBlanks (line.content.drop 1)
      let deeper := line.indent + (line.content.length - content.length)
      let lines :=
        if isLineEnd content then rest else ⟨line.number, deeper, content, 0, false⟩ :: rest
      let (item, rest) ← block limit (indent + 1) line.number lines
      let (items, rest) ← blockItems limit indent rest
      return (item :: items, rest)
    else if line.indent ≤ indent then some ([], line :: rest)
    else none

def blockEntries : Nat → Nat → List Line → Option (List (Setting × Setting) × List Line)
  | 0, _, _ => none
  | _, _, [] => some ([], [])
  | limit + 1, indent, line :: rest =>
    if line.indent < indent then some ([], line :: rest)
    else if line.indent > indent then none
    else do
      let (key, behind) ← key? line
      let (value, rest) ←
        if isLineEnd behind then
          match rest with
          | next :: _ =>
            if next.indent = indent && isDash next.content then do
              let (items, rest) ← blockItems limit indent rest
              pure (Setting.list next.number items, rest)
            else block limit (indent + 1) line.number rest
          | [] => block limit (indent + 1) line.number rest
        else do
          settle (indent + 1) rest (← inline? line.number (skipBlanks behind))
      let (entries, rest) ← blockEntries limit indent rest
      return ((key, value) :: entries, rest)

end

/-! ### Documents -/

def isMarker (mark : String) (line : Line) : Bool :=
  line.indent = 0 && (utf8 mark).isPrefixOf line.content && atGap (line.content.drop 3)

def isEnd (line : Line) : Bool := isMarker "---" line || isMarker "..." line

/-- A document may begin on the line of its marker, though not with a key. An end without a
beginning is a mistake. -/
def openDocument : List Line → Option (Option (Setting × Bool) × List Line)
  | [] => some (none, [])
  | line :: rest =>
    if isMarker "---" line then
      let content := line.content.drop 3
      if isLineEnd content then some (none, rest)
      else (inline? line.number (skipBlanks content)).map fun found => (some found, rest)
    else if isMarker "..." line then none
    else some (none, line :: rest)

/-- The first document of a file; nothing when the text does not follow the rules. -/
def read? (source : Bytes) : Option Setting := do
  let lines := linesFrom 0 false (splitLines 1 [] (← characters? source))
  let (opening, lines) ← openDocument lines
  let lines := lines.takeWhile fun line => !isEnd line
  let (setting, rest) ← match opening with
    | some found => settle 0 lines found
    | none => block (4 * source.length + 8) 0 1 lines
  if rest.isEmpty then some setting else none

end Document
end Tide
