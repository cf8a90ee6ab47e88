import Mathlib.Data.List.Forall2
import Tide.Proofs.Text.Pieces
import Tide.Token.Scan

/-!
# Scanning up to a boundary

A source can be scanned piece by piece. When a piece scans on its own and what follows begins with a
byte that no token can take up, then scanning both together gives the tokens of the piece, moved to
where the piece begins, and goes on with what follows.
-/
namespace Tide

/-- The same token in another place. The end of a source is not such a token. -/
structure Token.Moved (shift : Int) (t u : Token) : Prop where
  inside : t.kind ≠ .eof
  kind : u.kind = t.kind
  lexeme : u.lexeme = t.lexeme
  start : u.span.start.offset = t.span.start.offset + shift
  stop : u.span.stop.offset = t.span.stop.offset + shift

namespace Position

theorem offset_next (p : Position) (b : UInt8) : (p.next b).offset = p.offset + 1 := by
  unfold next
  split <;> rfl

theorem offset_forward (p : Position) (width columns : Nat) :
    (p.forward width columns).offset = p.offset + width := rfl

/-! Two places keep their distance when the same is read from both. Only their offsets do: a column
depends on the line that the text begins in. -/

section

variable {p q : Position} {shift : Int}

theorem moved_next (moved : q.offset = p.offset + shift) (b : UInt8) :
    (q.next b).offset = (p.next b).offset + shift := by
  rw [offset_next, offset_next, moved]
  omega

theorem moved_forward (moved : q.offset = p.offset + shift) (width columns : Nat) :
    (q.forward width columns).offset = (p.forward width columns).offset + shift := by
  rw [offset_forward, offset_forward, moved]
  omega

end

end Position

namespace Scan

/-- A byte that ends any token in front of it, except that a number takes a point. -/
def delimits (b : UInt8) : Bool :=
  b < 0x80 && !isNamePart (Char.ofNat b.toNat) && b ≠ '*'.toUInt8

/-- Begins with a delimiter, if with anything. -/
def Bounded (bytes : Bytes) : Prop := ∀ b ∈ bytes.head?, delimits b = true

theorem Bounded.parted {bytes : Bytes} (bounded : Bounded bytes) : Utf8.Parted bytes := by
  intro b first
  have delimiter := bounded b first
  simp only [delimits, Bool.and_eq_true, decide_eq_true_eq] at delimiter
  exact delimiter.1.1

theorem isDigit_range {b : UInt8} (digit : isDigit b = true) : 48 ≤ b.toNat ∧ b.toNat ≤ 57 := by
  simp only [isDigit, Bool.and_eq_true, decide_eq_true_eq, UInt8.le_iff_toNat_le] at digit
  exact digit

theorem isNamePart_of_isDigit {b : UInt8} (digit : isDigit b = true) :
    isNamePart (Char.ofNat b.toNat) = true := by
  have range := isDigit_range digit
  have number : (Char.ofNat b.toNat).toNat = b.toNat :=
    toNat_charOfNat (.inl (by omega))
  simp only [isNamePart, isNumeral, numeralRanges, Ranges.has, number, Bool.or_eq_true]
  right
  rw [if_neg (by omega), Bool.or_eq_true]
  exact .inl (decide_eq_true range.2)

theorem not_isDigit_of_delimits {b : UInt8} (delimiter : delimits b = true) :
    isDigit b = false := by
  rw [Bool.eq_false_iff]
  intro digit
  simp [delimits, isNamePart_of_isDigit digit] at delimiter

/-! ### Blanks and comments -/

theorem skipTrivia_space {b : UInt8} (space : isSpace b = true) (p : Position) (rest : Bytes) :
    skipTrivia none p (b :: rest) = skipTrivia none (p.next b) rest := by
  cases rest <;> simp [skipTrivia, space]

theorem skipTrivia_stop {b : UInt8} (noSpace : isSpace b = false) {rest : Bytes}
    (noComment : b = '/'.toUInt8 → '*'.toUInt8 ∉ rest.head?) (p : Position) :
    skipTrivia none p (b :: rest) = .ok ⟨p, b :: rest⟩ := by
  cases rest with
  | nil => simp [skipTrivia, noSpace]
  | cons c rest =>
    have noPair : ¬ (b = '/'.toUInt8 ∧ c = '*'.toUInt8) := by
      rintro ⟨slash, rfl⟩
      exact noComment slash rfl
    simp only [skipTrivia, noSpace, Bool.false_eq_true, if_false, noPair]

theorem skipTrivia_append {more : Bytes} (bounded : Bounded more) {opened : Option Position}
    {p : Position} {bytes : Bytes} {c : Cursor} (skipped : skipTrivia opened p bytes = .ok c)
    {shift : Int} (again : Option Position) (same : again.isSome = opened.isSome) {q : Position}
    (moved : q.offset = p.offset + shift) :
    ∃ r : Position, r.offset = c.position.offset + shift ∧
      skipTrivia again q (bytes ++ more) =
        if c.rest = [] then skipTrivia none r more else .ok ⟨r, c.rest ++ more⟩ := by
  fun_induction skipTrivia opened p bytes generalizing again q with
  | case1 p =>
    obtain rfl : c = ⟨p, []⟩ := by simpa using skipped.symm
    obtain rfl : again = none := by simpa using same
    exact ⟨q, moved, by simp⟩
  | case2 => simp at skipped
  | case3 p b space ih =>
    obtain rfl : again = none := by simpa using same
    rw [List.singleton_append, skipTrivia_space space]
    exact ih skipped _ rfl (Position.moved_next moved b)
  -- A last slash would open a comment with a star behind it, but a star is no delimiter.
  | case4 p b noSpace =>
    obtain rfl : c = ⟨p, [b]⟩ := by simpa using skipped.symm
    obtain rfl : again = none := by simpa using same
    refine ⟨q, moved, ?_⟩
    rw [List.singleton_append, skipTrivia_stop (by simpa using noSpace)]
    · simp
    · intro _ star
      have delimiter := bounded _ star
      simp [delimits] at delimiter
  | case5 opened p b ih => simp [skipTrivia] at skipped
  | case6 p b c' rest space ih =>
    obtain rfl : again = none := by simpa using same
    rw [List.cons_append, skipTrivia_space space]
    exact ih skipped _ rfl (Position.moved_next moved b)
  | case7 p b c' rest noSpace pair ih =>
    obtain rfl : again = none := by simpa using same
    obtain ⟨rfl, rfl⟩ := pair
    have opens : skipTrivia none q ('/'.toUInt8 :: '*'.toUInt8 :: rest ++ more) =
        skipTrivia (some q) ((q.next '/'.toUInt8).next '*'.toUInt8) (rest ++ more) := by
      simp [skipTrivia, noSpace]
    rw [opens]
    exact ih skipped (some q) rfl (Position.moved_next (Position.moved_next moved _) _)
  | case8 p b c' rest noSpace noPair =>
    obtain rfl : c = ⟨p, b :: c' :: rest⟩ := by simpa using skipped.symm
    obtain rfl : again = none := by simpa using same
    exact ⟨q, moved, by simp [skipTrivia, noSpace, noPair]⟩
  | case9 opened p b c' rest pair ih =>
    obtain ⟨place, rfl⟩ : ∃ place, again = some place := Option.isSome_iff_exists.mp same
    obtain ⟨rfl, rfl⟩ := pair
    simp only [List.cons_append, skipTrivia, and_self, if_true]
    exact ih skipped none rfl (Position.moved_next (Position.moved_next moved _) _)
  | case10 opened p b c' rest noPair ih =>
    obtain ⟨place, rfl⟩ : ∃ place, again = some place := Option.isSome_iff_exists.mp same
    simp only [List.cons_append, skipTrivia, noPair, if_false]
    exact ih skipped (some place) rfl (Position.moved_next moved b)

/-! ### Strings, numbers and words -/

theorem plain_of_isQuote {quote : UInt8} (opened : isQuote quote = true) :
    quote < 0x80 ∧ isSpace quote = false ∧ quote ≠ '/'.toUInt8 ∧ quote ≠ '\\'.toUInt8 := by
  simp only [isQuote, Bool.or_eq_true, decide_eq_true_eq] at opened
  rcases opened with rfl | rfl <;> decide

theorem readString_close (quote : UInt8) (p : Position) (rest : Bytes) :
    readString quote p (quote :: rest) = ⟨[], [], .ok ⟨p.next quote, rest⟩⟩ := by
  rw [readString.eq_def]
  simp

theorem readString_escape {quote : UInt8} (noClose : '\\'.toUInt8 ≠ quote) (e : UInt8)
    (p : Position) (rest : Bytes) :
    readString quote p ('\\'.toUInt8 :: e :: rest) =
      let after := (p.next '\\'.toUInt8).next e
      let body := readString quote after rest
      ⟨(unescape e).getD ['\\'.toUInt8, e] ++ body.value,
        (if (unescape e).isSome then [] else [unknownEscape e ⟨p, after⟩]) ++ body.warnings,
        body.ended⟩ := by
  rw [readString.eq_def]
  cases known : unescape e <;> simp [noClose, known]

theorem readString_ascii {quote b : UInt8} (noClose : b ≠ quote) (noEscape : b ≠ '\\'.toUInt8)
    (ascii : b < 0x80) (p : Position) (rest : Bytes) :
    readString quote p (b :: rest) =
      let body := readString quote (p.next b) rest
      { body with value := b :: body.value } := by
  rw [readString.eq_def]
  simp [noClose, noEscape, ascii]

theorem readString_piece {quote b : UInt8} (noClose : b ≠ quote) (noEscape : b ≠ '\\'.toUInt8)
    (high : ¬ b < 0x80) (p : Position) (rest : Bytes) :
    readString quote p (b :: rest) =
      let first := Utf8.uncons b rest
      let body := readString quote (p.forward first.1.bytes.length 1) first.2
      { body with value := first.1.bytes ++ body.value } := by
  rw [readString.eq_def]
  simp [noClose, noEscape, high]

/-- The ways to read on in a string up to its closing quote. -/
inductive Closes (quote : UInt8) : Position → Bytes → Cursor → Prop where
  | close (p : Position) (rest : Bytes) : Closes quote p (quote :: rest) ⟨p.next quote, rest⟩
  | escape (p : Position) (e : UInt8) (rest : Bytes) (c : Cursor)
      (noClose : '\\'.toUInt8 ≠ quote)
      (more : Closes quote ((p.next '\\'.toUInt8).next e) rest c) :
      Closes quote p ('\\'.toUInt8 :: e :: rest) c
  | ascii (p : Position) (b : UInt8) (rest : Bytes) (c : Cursor) (noClose : b ≠ quote)
      (noEscape : b ≠ '\\'.toUInt8) (low : b < 0x80) (more : Closes quote (p.next b) rest c) :
      Closes quote p (b :: rest) c
  | piece (p : Position) (b : UInt8) (rest : Bytes) (c : Cursor) (noClose : b ≠ quote)
      (noEscape : b ≠ '\\'.toUInt8) (high : ¬ b < 0x80)
      (more : Closes quote (p.forward (Utf8.uncons b rest).1.bytes.length 1)
        (Utf8.uncons b rest).2 c) : Closes quote p (b :: rest) c

theorem Closes.length_lt {quote : UInt8} {p : Position} {bytes : Bytes} {c : Cursor}
    (closes : Closes quote p bytes c) : c.rest.length < bytes.length := by
  induction closes with
  | close => simp
  | escape | ascii =>
    simp only [List.length_cons]
    omega
  | piece p b rest =>
    have shorter := Utf8.uncons_rest_length b rest
    simp only [List.length_cons]
    omega

theorem closes_of_ended {quote : UInt8} {p : Position} {bytes : Bytes} {c : Cursor}
    (ended : (readString quote p bytes).ended = .ok c) : Closes quote p bytes c := by
  induction p, bytes using readString.induct quote with
  | case1 => simp [readString] at ended
  | case2 p rest =>
    rw [readString_close] at ended
    obtain rfl : c = ⟨p.next quote, rest⟩ := by simpa using ended.symm
    exact .close p rest
  | case3 p noClose => simp [readString, noClose] at ended
  -- The scanner goes on behind a backslash and the byte behind it, whether it knows them or not.
  | case4 p e rest bytes known noClose after ih | case5 p e rest unknown noClose after ih =>
    rw [readString_escape noClose] at ended
    exact .escape p e rest c noClose (ih ended)
  | case6 p b rest noClose noEscape low ih =>
    rw [readString_ascii noClose noEscape low] at ended
    exact .ascii p b rest c noClose noEscape low (ih ended)
  | case7 p b rest noClose noEscape high first ih =>
    rw [readString_piece noClose noEscape high] at ended
    exact .piece p b rest c noClose noEscape high (ih ended)

theorem readString_append {more : Bytes} (parted : Utf8.Parted more) {quote : UInt8}
    {p : Position} {bytes : Bytes} {c : Cursor} (closes : Closes quote p bytes c)
    {shift : Int} {q : Position} (moved : q.offset = p.offset + shift) :
    ∃ r : Position, r.offset = c.position.offset + shift ∧
      (readString quote q (bytes ++ more)).ended = .ok ⟨r, c.rest ++ more⟩ ∧
      (readString quote q (bytes ++ more)).value = (readString quote p bytes).value ∧
      (readString quote q (bytes ++ more)).warnings.length =
        (readString quote p bytes).warnings.length := by
  -- The text is closed inside the piece, and `parted` keeps its characters from reaching past it.
  induction closes generalizing q with
  | close p rest =>
    refine ⟨q.next quote, Position.moved_next moved quote, ?_⟩
    simp [readString_close]
  | escape p e rest c noClose _ ih =>
    have behind := Position.moved_next (Position.moved_next moved '\\'.toUInt8) e
    obtain ⟨r, place, ended, value, warnings⟩ := ih behind
    refine ⟨r, place, ?_⟩
    rw [List.cons_append, List.cons_append, readString_escape noClose, readString_escape noClose]
    refine ⟨ended, by simp [value], ?_⟩
    simp only [List.length_append, warnings]
    split <;> rfl
  | ascii p b rest c noClose noEscape low _ ih =>
    obtain ⟨r, place, ended, value, warnings⟩ := ih (Position.moved_next moved b)
    refine ⟨r, place, ?_⟩
    rw [List.cons_append, readString_ascii noClose noEscape low,
      readString_ascii noClose noEscape low]
    exact ⟨ended, by simp [value], warnings⟩
  | piece p b rest c noClose noEscape high _ ih =>
    obtain ⟨r, place, ended, value, warnings⟩ := ih (Position.moved_forward moved _ 1)
    refine ⟨r, place, ?_⟩
    rw [List.cons_append, readString_piece noClose noEscape high,
      readString_piece noClose noEscape high, Utf8.uncons_append parted]
    exact ⟨ended, by simp [value], warnings⟩

theorem span_append {more : Bytes} (parted : Utf8.Parted more) {accept : Char → Bool}
    (refused : ∀ b ∈ more.head?, accept (Char.ofNat b.toNat) = false) (bytes : Bytes) :
    Utf8.span accept (bytes ++ more) =
      ((Utf8.span accept bytes).1, (Utf8.span accept bytes).2 ++ more) := by
  -- A run that comes to the end of the piece is stopped by what follows, which is not accepted.
  fun_induction Utf8.span accept bytes with
  | case1 =>
    cases more with
    | nil => simp [Utf8.span]
    | cons b more =>
      have ascii : b < 0x80 := parted b (by simp)
      have stop := refused b (by simp)
      simp [Utf8.span, Utf8.uncons, ascii, Piece.char, stop]
  | case2 lead tail first accepted run ih =>
    rw [List.cons_append, Utf8.span, Utf8.uncons_append parted]
    simp only [first] at accepted ih
    simp [accepted, ih, run, first]
  | case3 lead tail first refusedFirst =>
    rw [List.cons_append, Utf8.span, Utf8.uncons_append parted]
    simp only [first] at refusedFirst
    simp [refusedFirst]

/-! ### Tokens -/

theorem mem_symbols (symbol : Symbol) : symbol ∈ Symbol.all := by
  cases symbol <;> decide

/-- The bytes of symbols begin nothing else. -/
theorem class_of_symbol (symbol : Symbol) :
    isSpace symbol.byte = false ∧ isQuote symbol.byte = false ∧ isDigit symbol.byte = false ∧
      symbol.byte < 0x80 ∧ isNameStart (Char.ofNat symbol.byte.toNat) = false ∧
      Symbol.ofByte? symbol.byte = some symbol := by
  have each : ∀ symbol ∈ Symbol.all, isSpace symbol.byte = false ∧ isQuote symbol.byte = false ∧
      isDigit symbol.byte = false ∧ symbol.byte < 0x80 ∧
      isNameStart (Char.ofNat symbol.byte.toNat) = false ∧
      Symbol.ofByte? symbol.byte = some symbol := by
    decide +kernel
  exact each symbol (mem_symbols symbol)

theorem readToken_symbol (symbol : Symbol) (p : Position) (rest : Bytes) :
    readToken ⟨p, symbol.byte :: rest⟩ =
      .token ⟨.symbol symbol, [symbol.byte], ⟨p, p.next symbol.byte⟩⟩ []
        ⟨p.next symbol.byte, rest⟩ := by
  obtain ⟨-, noQuote, noDigit, ascii, noStart, found⟩ := class_of_symbol symbol
  simp [readToken, noQuote, noDigit, Utf8.uncons_ascii ascii, Piece.char, noStart, found]

theorem next_symbol (symbol : Symbol) (rest : Bytes)
    (noComment : symbol = .slash → '*'.toUInt8 ∉ rest.head?) (p : Position) :
    next ⟨p, symbol.byte :: rest⟩ =
      .token ⟨.symbol symbol, [symbol.byte], ⟨p, p.next symbol.byte⟩⟩ []
        ⟨p.next symbol.byte, rest⟩ := by
  have slash : symbol.byte = '/'.toUInt8 → symbol = .slash := by
    cases symbol <;> decide
  rw [next, skipTrivia_stop (class_of_symbol symbol).1 (noComment ∘ slash)]
  exact readToken_symbol symbol p rest

theorem next_nil (p : Position) : next ⟨p, []⟩ = .finished ⟨.eof, [], ⟨p, p⟩⟩ := by
  simp [next, skipTrivia, readToken]

theorem ofWord_cases (word : Bytes) :
    Kind.ofWord word = .ident ∨ ∃ k, Kind.ofWord word = .keyword k := by
  unfold Kind.ofWord
  cases Keyword.all.find? fun k => utf8 k.name == word with
  | none => exact .inl rfl
  | some k => exact .inr ⟨k, rfl⟩

theorem ofWord_ne_eof (word : Bytes) : Kind.ofWord word ≠ .eof := by
  obtain name | ⟨k, keyword⟩ := ofWord_cases word <;> simp [*]

theorem ofWord_ne_string (word : Bytes) : Kind.ofWord word ≠ .string := by
  obtain name | ⟨k, keyword⟩ := ofWord_cases word <;> simp [*]

theorem readQuoted_ended {quote : UInt8} {p : Position} {rest : Bytes} {c : Cursor}
    (ended : (readString quote (p.next quote) rest).ended = .ok c) :
    readQuoted p quote rest =
      .token ⟨.string, (readString quote (p.next quote) rest).value, ⟨p, c.position⟩⟩
        (readString quote (p.next quote) rest).warnings c := by
  simp only [readQuoted, ended]

theorem readToken_quoted {quote : UInt8} (opened : isQuote quote = true) (p : Position)
    (rest : Bytes) : readToken ⟨p, quote :: rest⟩ = readQuoted p quote rest := by
  simp [readToken, opened]

theorem next_quoted {quote : UInt8} (opened : isQuote quote = true) (p : Position)
    (rest : Bytes) : next ⟨p, quote :: rest⟩ = readQuoted p quote rest := by
  obtain ⟨-, noSpace, noSlash, -⟩ := plain_of_isQuote opened
  rw [next, skipTrivia_stop noSpace (fun slash => absurd slash noSlash)]
  exact readToken_quoted opened p rest

theorem readToken_number {b : UInt8} (noQuote : isQuote b = false) (digit : isDigit b = true)
    (p : Position) (rest : Bytes) : readToken ⟨p, b :: rest⟩ = readNumber p (b :: rest) := by
  simp [readToken, noQuote, digit]

theorem readToken_word {lead : UInt8} {tail : Bytes} (noQuote : isQuote lead = false)
    (noDigit : isDigit lead = false) (start : isNameStart (Utf8.uncons lead tail).1.char = true)
    (p : Position) : readToken ⟨p, lead :: tail⟩ = readWord p (lead :: tail) := by
  simp [readToken, noQuote, noDigit, start]

/-- The ways to read a token, in the order in which the scanner tries them. -/
inductive Reading (p : Position) : Bytes → Token → List Diagnostic → Cursor → Prop where
  | quoted (quote : UInt8) (rest : Bytes) (c : Cursor) (opened : isQuote quote = true)
      (closes : Closes quote (p.next quote) rest c) :
      Reading p (quote :: rest)
        ⟨.string, (readString quote (p.next quote) rest).value, ⟨p, c.position⟩⟩
        (readString quote (p.next quote) rest).warnings c
  | number (b : UInt8) (rest : Bytes) (t : Token) (warnings : List Diagnostic) (c : Cursor)
      (noQuote : isQuote b = false) (digit : isDigit b = true) (kind : t.kind.isNumeric = true)
      (read : readNumber p (b :: rest) = .token t warnings c) :
      Reading p (b :: rest) t warnings c
  | word (lead : UInt8) (tail : Bytes) (t : Token) (warnings : List Diagnostic) (c : Cursor)
      (noQuote : isQuote lead = false) (noDigit : isDigit lead = false)
      (start : isNameStart (Utf8.uncons lead tail).1.char = true)
      (kind : t.kind = Kind.ofWord t.lexeme)
      (read : readWord p (lead :: tail) = .token t warnings c) :
      Reading p (lead :: tail) t warnings c
  | symbol (symbol : Symbol) (rest : Bytes) :
      Reading p (symbol.byte :: rest) ⟨.symbol symbol, [symbol.byte], ⟨p, p.next symbol.byte⟩⟩ []
        ⟨p.next symbol.byte, rest⟩

theorem reading_of_readToken {p : Position} {bytes : Bytes} {t : Token}
    {warnings : List Diagnostic} {c : Cursor}
    (read : readToken ⟨p, bytes⟩ = .token t warnings c) : Reading p bytes t warnings c := by
  cases bytes with
  | nil => simp [readToken] at read
  | cons b rest =>
    simp only [readToken] at read
    -- One case for each test of the scanner.
    split at read
    next opened =>
      simp only [readQuoted] at read
      split at read
      next behind ended =>
        obtain ⟨rfl, rfl, rfl⟩ := read
        exact .quoted b rest _ opened (closes_of_ended ended)
      next => simp at read
    next noQuote =>
    split at read
    next digit =>
      have kind : t.kind.isNumeric = true := by
        simp only [readNumber, Step.token.injEq] at read
        obtain ⟨rfl, -, -⟩ := read
        simp only
        split <;> rfl
      exact .number b rest t warnings c (by simpa using noQuote) digit kind read
    next noDigit =>
    split at read
    next start =>
      have kind : t.kind = Kind.ofWord t.lexeme := by
        simp only [readWord, Step.token.injEq] at read
        obtain ⟨rfl, -, -⟩ := read
        rfl
      exact .word b rest t warnings c (by simpa using noQuote) (by simpa using noDigit) start kind
        read
    next =>
    split at read
    next symbol found =>
      obtain ⟨rfl, rfl, rfl⟩ := read
      obtain rfl : symbol.byte = b := by simpa using List.find?_some found
      exact .symbol symbol rest
    next => simp at read

/-- The token of a step and what comes behind it, in another place and in front of more text. -/
def Step.Carries (shift : Int) (more : Bytes) (t : Token) (warnings : List Diagnostic) (c : Cursor)
    (step : Step) : Prop :=
  ∃ u again r, step = .token u again ⟨r, c.rest ++ more⟩ ∧ t.Moved shift u ∧
    again.length = warnings.length ∧ r.offset = c.position.offset + shift

section

variable {more : Bytes} {t : Token} {warnings : List Diagnostic} {c : Cursor} {shift : Int}
  {p q : Position}

theorem readQuoted_append (parted : Utf8.Parted more) {quote : UInt8} {rest : Bytes}
    (closes : Closes quote (p.next quote) rest c)
    (moved : q.offset = p.offset + shift) :
    (readQuoted q quote (rest ++ more)).Carries shift more
      ⟨.string, (readString quote (p.next quote) rest).value, ⟨p, c.position⟩⟩
      (readString quote (p.next quote) rest).warnings c := by
  obtain ⟨r, place, again, value, warnings⟩ :=
    readString_append parted closes (Position.moved_next moved quote)
  rw [readQuoted_ended again]
  exact ⟨_, _, r, rfl, ⟨by simp, rfl, value, moved, place⟩, warnings, place⟩

theorem readNumber_append {source : Bytes} (read : readNumber p source = .token t warnings c)
    (unjoined : c.rest = [] → ∀ b ∈ more.head?, isDigit b = false ∧ b ≠ '.'.toUInt8)
    (moved : q.offset = p.offset + shift) :
    (readNumber q (source ++ more)).Carries shift more t warnings c := by
  simp only [readNumber, Step.token.injEq] at read
  obtain ⟨rfl, rfl, rfl⟩ := read
  generalize inRun : (fun b : UInt8 => isDigit b || decide (b = '.'.toUInt8)) = accept at unjoined ⊢
  have taken : (source ++ more).takeWhile accept = source.takeWhile accept ∧
      (source ++ more).dropWhile accept = source.dropWhile accept ++ more := by
    -- A run that reaches the end of the piece is the one that what follows could go on.
    by_cases all : source.dropWhile accept = []
    · have whole : source.takeWhile accept = source := by
        have parts := List.takeWhile_append_dropWhile (p := accept) (l := source)
        rwa [all, List.append_nil] at parts
      have stop : more.takeWhile accept = [] ∧ more.dropWhile accept = more := by
        cases more with
        | nil => simp
        | cons b more =>
          obtain ⟨noDigit, noPoint⟩ := unjoined all b (by simp)
          have refused : accept b = false := by simp [← inRun, noDigit, noPoint]
          simp [refused]
      rw [List.takeWhile_append, List.dropWhile_append]
      simp [whole, all, stop]
    · have shorter : (source.takeWhile accept).length ≠ source.length := by
        intro same
        have parts := congrArg List.length
          (List.takeWhile_append_dropWhile (p := accept) (l := source))
        rw [List.length_append, same] at parts
        exact all (List.eq_nil_of_length_eq_zero (by omega))
      rw [List.takeWhile_append, List.dropWhile_append]
      simp [shorter, all]
  obtain ⟨lexeme, behind⟩ := taken
  simp only [readNumber, inRun, lexeme, behind]
  have stop := Position.moved_forward moved
  exact ⟨_, _, _, rfl, ⟨by simp only; split <;> simp, rfl, rfl, moved, stop _ _⟩, rfl, stop _ _⟩

theorem readWord_append (bounded : Bounded more) {source : Bytes}
    (read : readWord p source = .token t warnings c) (moved : q.offset = p.offset + shift) :
    (readWord q (source ++ more)).Carries shift more t warnings c := by
  simp only [readWord, Step.token.injEq] at read
  obtain ⟨rfl, rfl, rfl⟩ := read
  have refused : ∀ b ∈ more.head?, isNamePart (Char.ofNat b.toNat) = false := by
    intro b first
    have delimiter := bounded b first
    simp only [delimits, Bool.and_eq_true, Bool.not_eq_true'] at delimiter
    exact delimiter.1.2
  simp only [readWord, span_append bounded.parted refused]
  have stop := Position.moved_forward moved
  exact ⟨_, _, _, rfl, ⟨ofWord_ne_eof _, rfl, rfl, moved, stop _ _⟩, rfl, stop _ _⟩

theorem readToken_append (bounded : Bounded more) {source : Bytes}
    (read : readToken ⟨p, source⟩ = .token t warnings c)
    (unjoined : t.kind.isNumeric = true → c.rest = [] → '.'.toUInt8 ∉ more.head?)
    (moved : q.offset = p.offset + shift) :
    (readToken ⟨q, source ++ more⟩).Carries shift more t warnings c := by
  -- What follows does not change the way in which the token is read.
  cases reading_of_readToken read with
  | quoted quote rest c opened closes =>
    rw [List.cons_append, readToken_quoted opened]
    exact readQuoted_append bounded.parted closes moved
  | number b rest t warnings c noQuote digit kind read =>
    rw [List.cons_append, readToken_number noQuote digit]
    refine readNumber_append read (fun ended b first => ?_) moved
    refine ⟨not_isDigit_of_delimits (bounded b first), ?_⟩
    rintro rfl
    exact unjoined kind ended first
  | word lead tail t warnings c noQuote noDigit start kind read =>
    have same : isNameStart (Utf8.uncons lead (tail ++ more)).1.char = true := by
      rw [Utf8.uncons_append bounded.parted]
      exact start
    rw [List.cons_append, readToken_word noQuote noDigit same]
    exact readWord_append bounded read moved
  | symbol symbol rest =>
    have stop := Position.moved_next moved symbol.byte
    rw [List.cons_append, readToken_symbol]
    exact ⟨_, _, _, rfl, ⟨by simp, rfl, rfl, moved, stop⟩, rfl, stop⟩

theorem rest_of_finished {cursor : Cursor} {last : Token}
    (read : readToken cursor = .finished last) :
    cursor.rest = [] ∧ last = ⟨.eof, [], ⟨cursor.position, cursor.position⟩⟩ := by
  obtain ⟨p, source⟩ := cursor
  cases source with
  | nil => simpa [readToken, eq_comm] using read
  | cons b rest =>
    simp only [readToken, readQuoted, readNumber, readWord] at read
    repeat' split at read
    all_goals simp at read

theorem next_append (bounded : Bounded more) {source : Bytes}
    (read : next ⟨p, source⟩ = .token t warnings c)
    (unjoined : t.kind.isNumeric = true → c.rest = [] → '.'.toUInt8 ∉ more.head?)
    (moved : q.offset = p.offset + shift) :
    (next ⟨q, source ++ more⟩).Carries shift more t warnings c := by
  unfold next at read ⊢
  simp only at read ⊢
  split at read
  next => simp at read
  next cursor skipped =>
    obtain ⟨r, place, same⟩ := skipTrivia_append bounded skipped none rfl moved
    have taken : cursor.rest ≠ [] := by
      intro nothing
      simp [readToken, nothing] at read
    rw [if_neg taken] at same
    rw [same]
    exact readToken_append bounded read unjoined place

theorem kind_of_finished {cursor : Cursor} {last : Token} (read : next cursor = .finished last) :
    last.kind = .eof := by
  unfold next at read
  split at read
  next => simp at read
  next =>
    obtain ⟨-, rfl⟩ := rest_of_finished read
    rfl

/-- Where a piece ends, scanning goes on with what follows it. -/
theorem next_append_finished (bounded : Bounded more) {source : Bytes} {last : Token}
    (read : next ⟨p, source⟩ = .finished last) (moved : q.offset = p.offset + shift) :
    ∃ r : Position, r.offset = last.span.start.offset + shift ∧
      next ⟨q, source ++ more⟩ = next ⟨r, more⟩ := by
  unfold next at read ⊢
  simp only at read ⊢
  split at read
  next => simp at read
  next cursor skipped =>
    obtain ⟨nothing, rfl⟩ := rest_of_finished read
    obtain ⟨r, place, same⟩ := skipTrivia_append bounded skipped none rfl moved
    rw [if_pos nothing] at same
    exact ⟨r, place, by rw [same]⟩

end

/-! ### Runs -/

theorem run_token {cursor c : Cursor} {t : Token} {warnings : List Diagnostic}
    (read : next cursor = .token t warnings c) :
    run cursor = ⟨t :: (run c).tokens, warnings ++ (run c).warnings, (run c).fault⟩ := by
  rw [run]
  split <;> simp_all

theorem run_finished {cursor : Cursor} {last : Token} (read : next cursor = .finished last) :
    run cursor = ⟨[last], [], none⟩ := by
  rw [run]
  split <;> simp_all

theorem run_failed {cursor : Cursor} {fault : Diagnostic} {warnings : List Diagnostic}
    (read : next cursor = .failed fault warnings) : run cursor = ⟨[], warnings, some fault⟩ := by
  rw [run]
  split <;> simp_all

theorem run_congr {a b : Cursor} (same : next a = next b) : run a = run b := by
  cases read : next b with
  | token t warnings c => rw [run_token read, run_token (same.trans read)]
  | finished last => rw [run_finished read, run_finished (same.trans read)]
  | failed fault warnings => rw [run_failed read, run_failed (same.trans read)]

/-- A piece that scans by itself gives the same tokens in front of more text, up to its end. -/
theorem run_append {more : Bytes} (bounded : Bounded more) (noPoint : '.'.toUInt8 ∉ more.head?)
    {cursor : Cursor} (scans : (run cursor).fault = none) {shift : Int} {q : Position}
    (moved : q.offset = cursor.position.offset + shift) :
    ∃ tokens last again r, (run cursor).tokens = tokens ++ [last] ∧ last.kind = .eof ∧
      tokens.Forall₂ (Token.Moved shift) again ∧
      (run ⟨q, cursor.rest ++ more⟩).tokens = again ++ (run ⟨r, more⟩).tokens ∧
      (run ⟨q, cursor.rest ++ more⟩).fault = (run ⟨r, more⟩).fault := by
  -- On the tokens of the piece. Its end is no token of the whole, which goes on there.
  induction cursor using run.induct generalizing q with
  | case1 cursor last read =>
    obtain ⟨r, -, same⟩ := next_append_finished bounded read moved
    rw [run_finished read, run_congr same]
    exact ⟨[], last, [], r, rfl, kind_of_finished read, .nil, rfl, rfl⟩
  | case2 cursor fault warnings read => simp [run_failed read] at scans
  | case3 cursor t warnings c read ih =>
    rw [run_token read] at scans ⊢
    obtain ⟨u, again, r, step, same, -, place⟩ :=
      next_append bounded read (fun _ _ => noPoint) moved
    rw [run_token step]
    obtain ⟨tokens, last, others, r, split, ended, pairs, joined, fault⟩ := ih scans place
    refine ⟨t :: tokens, last, u :: others, r, ?_, ended, .cons same pairs, ?_, fault⟩
    · rw [split, List.cons_append]
    · rw [joined, List.cons_append]

end Scan
end Tide
