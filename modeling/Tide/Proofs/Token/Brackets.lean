import Mathlib
import Tide.Proofs.Token.Boundary
import Tide.Session.Bracket

/-!
# Counting brackets in text and in tokens

The count of open brackets in a text does its own reading of strings and comments, byte by byte. It
finds the brackets that the scanner finds: on every source that scans, the text leaves as many
brackets open as its tokens do.

## Proof strategy

The scanner stops between tokens, and the count is compared there. One lemma for each kind of token
says that the count, read in code at the token's first byte, is the token's own weight and the count
behind the token. Strings and comments are where the count changes its state: it leaves a string at
the quote at which the scanner leaves it, since the other bytes of a character in the string are
neither quotes nor backslashes, and a comment opens only where the scanner looks for one.
-/
namespace Tide

namespace Kind

def isOpening : Kind → Bool
  | .symbol .lparen | .symbol .lbrace | .symbol .lbracket => true
  | _ => false

def isClosing : Kind → Bool
  | .symbol .rparen | .symbol .rbrace | .symbol .rbracket => true
  | _ => false

def bracketWeight (kind : Kind) : Int :=
  if kind.isOpening then 1 else if kind.isClosing then -1 else 0

theorem bracketWeight_ofWord (word : Bytes) : (ofWord word).bracketWeight = 0 := by
  obtain name | ⟨k, keyword⟩ := Scan.ofWord_cases word
  · rw [name]
    rfl
  · rw [keyword]
    rfl

end Kind

/-- The opening brackets of a list of tokens, less the closing ones. -/
def openBrackets (tokens : List Token) : Int :=
  (tokens.countP fun t => t.kind.isOpening) - (tokens.countP fun t => t.kind.isClosing)

theorem openBrackets_cons (t : Token) (tokens : List Token) :
    openBrackets (t :: tokens) = t.kind.bracketWeight + openBrackets tokens := by
  have apart : t.kind.isOpening = true → t.kind.isClosing = false := by
    cases t.kind with
    | symbol s => cases s <;> decide
    | _ => simp [Kind.isOpening]
  simp only [openBrackets, List.countP_cons, Kind.bracketWeight]
  by_cases opening : t.kind.isOpening = true
  · simp only [opening, apart opening, if_true, Bool.false_eq_true, if_false]
    omega
  by_cases closing : t.kind.isClosing = true
  · simp only [opening, closing, if_true, Bool.false_eq_true, if_false]
    omega
  · simp only [opening, closing, Bool.false_eq_true, if_false]
    omega

namespace Bracket

/-! ### Reading the text -/

/-- The bytes at which the count does anything while it reads code. -/
def marks : Bytes := utf8 "\"'/()[]\x7b\x7d"

theorem mem_marks_of_isQuote {b : UInt8} (quote : isQuote b = true) : b ∈ marks := by
  simp only [isQuote, Bool.or_eq_true, decide_eq_true_eq] at quote
  rcases quote with rfl | rfl <;> decide

theorem mem_marks_of_weight {b : UInt8} (heavy : weight b ≠ 0) : b ∈ marks := by
  by_contra other
  have light : isOpening b = false ∧ isClosing b = false := by
    simp only [isOpening, isClosing, Bool.or_eq_false_iff, decide_eq_false_iff_not]
    refine ⟨⟨⟨?_, ?_⟩, ?_⟩, ⟨?_, ?_⟩, ?_⟩ <;>
      · rintro rfl
        exact other (by decide)
  simp [weight, light] at heavy

/-- Whether a comment opens at the front of a text. -/
def OpensComment (bytes : Bytes) : Prop := ∃ later, bytes = '/'.toUInt8 :: '*'.toUInt8 :: later

theorem openFrom_code {b : UInt8} {rest : Bytes} (noQuote : isQuote b = false)
    (noComment : ¬ OpensComment (b :: rest)) :
    openFrom .code (b :: rest) = weight b + openFrom .code rest := by
  cases rest with
  | nil => simp [openFrom, noQuote]
  | cons c later =>
    have noPair : ¬ (b = '/'.toUInt8 ∧ c = '*'.toUInt8) := by
      rintro ⟨rfl, rfl⟩
      exact noComment ⟨later, rfl⟩
    simp only [openFrom, noQuote, Bool.false_eq_true, if_false, noPair]

theorem openFrom_unmarked {run : Bytes} (unmarked : ∀ b ∈ run, b ∉ marks) (rest : Bytes) :
    openFrom .code (run ++ rest) = openFrom .code rest := by
  induction run with
  | nil => rfl
  | cons b run ih =>
    have first : b ∉ marks := unmarked b (by simp)
    have noQuote : isQuote b = false := by
      rw [← Bool.not_eq_true]
      exact fun quote => first (mem_marks_of_isQuote quote)
    have noWeight : weight b = 0 := by
      by_contra heavy
      exact first (mem_marks_of_weight heavy)
    have noComment : ¬ OpensComment (b :: (run ++ rest)) := by
      rintro ⟨later, same⟩
      obtain ⟨rfl, -⟩ := List.cons.inj same
      exact first (by decide)
    rw [List.cons_append, openFrom_code noQuote noComment, noWeight,
      ih fun c member => unmarked c (by simp [member])]
    simp

theorem openFrom_string {quote b : UInt8} (noEscape : b ≠ '\\'.toUInt8) (noClose : b ≠ quote)
    (rest : Bytes) : openFrom (.string quote) (b :: rest) = openFrom (.string quote) rest := by
  rw [openFrom.eq_def]
  simp only [noEscape, noClose, if_false]

theorem openFrom_high {quote : UInt8} (ascii : quote < 0x80) {run : Bytes}
    (high : ∀ b ∈ run, ¬ b < 0x80) (rest : Bytes) :
    openFrom (.string quote) (run ++ rest) = openFrom (.string quote) rest := by
  induction run with
  | nil => rfl
  | cons b run ih =>
    have first : ¬ b < 0x80 := high b (by simp)
    have noEscape : b ≠ '\\'.toUInt8 := by
      rintro rfl
      exact first (by decide)
    have noClose : b ≠ quote := by
      rintro rfl
      exact first ascii
    rw [List.cons_append, openFrom_string noEscape noClose,
      ih fun c member => high c (by simp [member])]

open Scan

/-! ### Reading along with the scanner -/

/-- What is read while blanks and comments are skipped. -/
def inside : Option Position → Inside
  | none => .code
  | some _ => .comment

theorem openFrom_space {b : UInt8} (space : isSpace b = true) (rest : Bytes) :
    openFrom .code (b :: rest) = openFrom .code rest := by
  have unmarked : ∀ c ∈ [b], c ∉ marks := by
    intro c member
    obtain rfl := List.mem_singleton.mp member
    simp only [isSpace, Bool.or_eq_true, decide_eq_true_eq] at space
    rcases space with ((rfl | rfl) | rfl) | rfl <;> decide
  exact openFrom_unmarked unmarked rest

theorem openFrom_skipTrivia {opened : Option Position} {p : Position} {bytes : Bytes} {c : Cursor}
    (skipped : skipTrivia opened p bytes = .ok c) :
    openFrom (inside opened) bytes = openFrom .code c.rest ∧ ¬ OpensComment c.rest := by
  -- The scanner remembers where a comment was opened; the counter only that one was.
  fun_induction skipTrivia opened p bytes with
  | case1 p =>
    obtain rfl : c = ⟨p, []⟩ := by simpa using skipped.symm
    exact ⟨rfl, by simp [OpensComment]⟩
  | case2 => simp at skipped
  | case3 p b space ih =>
    rw [inside, openFrom_space space]
    exact ih skipped
  | case4 p b noSpace =>
    obtain rfl : c = ⟨p, [b]⟩ := by simpa using skipped.symm
    exact ⟨rfl, by simp [OpensComment]⟩
  | case5 opened p b ih => simp [skipTrivia] at skipped
  | case6 p b c' rest space ih =>
    rw [inside, openFrom_space space]
    exact ih skipped
  | case7 p b c' rest noSpace pair ih =>
    obtain ⟨rfl, rfl⟩ := pair
    exact ih skipped
  | case8 p b c' rest noSpace noPair =>
    obtain rfl : c = ⟨p, b :: c' :: rest⟩ := by simpa using skipped.symm
    refine ⟨rfl, ?_⟩
    rintro ⟨later, same⟩
    exact noPair (by simp_all)
  | case9 opened p b c' rest pair ih =>
    obtain ⟨rfl, rfl⟩ := pair
    exact ih skipped
  | case10 opened p b c' rest noPair ih =>
    simp only [inside, openFrom, noPair, if_false]
    exact ih skipped

/-- A string is left at the same quote. -/
theorem openFrom_closes {quote : UInt8} (opened : isQuote quote = true) {p : Position}
    {bytes : Bytes} {c : Cursor} (closes : Closes quote p bytes c) :
    openFrom (.string quote) bytes = openFrom .code c.rest := by
  obtain ⟨ascii, -, -, noEscape⟩ := plain_of_isQuote opened
  induction closes with
  | close p rest =>
    rw [openFrom.eq_def]
    simp only [noEscape, if_false, if_true]
  -- Whatever stands behind a backslash is taken with it.
  | escape p e rest c _ _ ih => simpa [openFrom] using ih
  | ascii p b rest c noClose noEscape _ _ ih =>
    rw [openFrom_string noEscape noClose]
    exact ih
  -- The scanner takes a whole character, the counter its bytes one by one. None of the later bytes
  -- is a quote or a backslash.
  | piece p b rest c noClose noEscape _ _ ih =>
    obtain ⟨taken, tail, -, others⟩ := Utf8.uncons_bytes b rest
    rw [openFrom_string noEscape noClose, tail, openFrom_high ascii others]
    exact ih

theorem refused_of_mem_marks : ∀ b ∈ marks, b < 0x80 ∧ isNamePart (Char.ofNat b.toNat) = false ∧
    isDigit b = false ∧ b ≠ '.'.toUInt8 := by
  decide +kernel

/-- No byte of a name is a mark, whichever characters the name is made of. -/
theorem unmarked_span (bytes : Bytes) :
    bytes = (Utf8.span isNamePart bytes).1 ++ (Utf8.span isNamePart bytes).2 ∧
      ∀ b ∈ (Utf8.span isNamePart bytes).1, b ∉ marks := by
  obtain ⟨split, named⟩ := Utf8.span_bytes isNamePart bytes
  refine ⟨split, fun b member mark => ?_⟩
  obtain ⟨ascii, noName, -⟩ := refused_of_mem_marks b mark
  have accepted := named b member ascii
  rw [noName] at accepted
  exact Bool.false_ne_true accepted

theorem openFrom_span (bytes : Bytes) :
    openFrom .code bytes = openFrom .code (Utf8.span isNamePart bytes).2 := by
  obtain ⟨split, unmarked⟩ := unmarked_span bytes
  conv_lhs => rw [split]
  exact openFrom_unmarked unmarked _

/-- A run that takes no marks is passed over. -/
theorem openFrom_dropWhile {accept : UInt8 → Bool} (refuses : ∀ b ∈ marks, accept b = false)
    (bytes : Bytes) : openFrom .code bytes = openFrom .code (bytes.dropWhile accept) := by
  have unmarked : ∀ b ∈ bytes.takeWhile accept, b ∉ marks := by
    intro b member mark
    have accepted := List.mem_takeWhile_imp member
    rw [refuses b mark] at accepted
    exact Bool.false_ne_true accepted
  conv_lhs => rw [← bytes.takeWhile_append_dropWhile (p := accept)]
  exact openFrom_unmarked unmarked _

theorem openFrom_quote {quote : UInt8} (opened : isQuote quote = true) (rest : Bytes) :
    openFrom .code (quote :: rest) = openFrom (.string quote) rest := by
  rw [openFrom.eq_def]
  simp only [opened, if_true]

/-- A token counts for what it weighs, and the count goes on behind it. -/
theorem openFrom_readToken {p : Position} {bytes : Bytes} {t : Token}
    {warnings : List Diagnostic} {c : Cursor} (noComment : ¬ OpensComment bytes)
    (read : readToken ⟨p, bytes⟩ = .token t warnings c) :
    openFrom .code bytes = t.kind.bracketWeight + openFrom .code c.rest := by
  -- Only a symbol can weigh anything.
  cases reading_of_readToken read with
  | quoted quote rest c opened closes =>
    rw [openFrom_quote opened, openFrom_closes opened closes]
    simp [Kind.bracketWeight, Kind.isOpening, Kind.isClosing]
  | number b rest t warnings c _ _ _ read =>
    simp only [readNumber, Step.token.injEq] at read
    obtain ⟨rfl, -, rfl⟩ := read
    have refuses : ∀ b ∈ marks, (isDigit b || decide (b = '.'.toUInt8)) = false := by
      intro b mark
      obtain ⟨-, -, noDigit, noPoint⟩ := refused_of_mem_marks b mark
      simp [noDigit, noPoint]
    rw [openFrom_dropWhile refuses]
    simp only
    split <;> simp [Kind.bracketWeight, Kind.isOpening, Kind.isClosing]
  | word lead tail t warnings c _ _ _ _ read =>
    simp only [readWord, Step.token.injEq] at read
    obtain ⟨rfl, -, rfl⟩ := read
    rw [Kind.bracketWeight_ofWord, Int.zero_add]
    exact openFrom_span (lead :: tail)
  | symbol symbol rest =>
    have weights : ∀ symbol ∈ Symbol.all,
        weight symbol.byte = (Kind.symbol symbol).bracketWeight := by decide
    have unquoted : isQuote symbol.byte = false := (class_of_symbol symbol).2.1
    rw [openFrom_code unquoted noComment, weights symbol (mem_symbols symbol)]

/-- What one step of the scanner does to the count. -/
theorem openFrom_next {cursor c : Cursor} {t : Token} {warnings : List Diagnostic}
    (read : next cursor = .token t warnings c) :
    openFrom .code cursor.rest = t.kind.bracketWeight + openFrom .code c.rest := by
  unfold next at read
  split at read
  next => simp at read
  next skipped =>
    obtain ⟨same, noComment⟩ := openFrom_skipTrivia skipped
    exact same.trans (openFrom_readToken noComment read)

theorem openFrom_run {cursor : Cursor} (scans : (run cursor).fault = none) :
    openFrom .code cursor.rest = openBrackets (run cursor).tokens := by
  induction cursor using run.induct with
  | case1 cursor last read =>
    rw [run_finished read, openBrackets_cons, kind_of_finished read]
    unfold next at read
    split at read
    next => simp at read
    next skipped =>
      refine (openFrom_skipTrivia skipped).1.trans ?_
      rw [(rest_of_finished read).1]
      rfl
  | case2 cursor fault warnings read => simp [run_failed read] at scans
  | case3 cursor t warnings c read ih =>
    rw [run_token read] at scans
    rw [run_token read, openBrackets_cons, ← ih scans]
    exact openFrom_next read

end Bracket

/-- The count of open brackets in a source that scans is that of its tokens. -/
theorem bracketDepth_eq_tokens {source : Bytes} (scans : (scan source).fault = none) :
    bracketDepth source =
      ((scan source).tokens.countP fun t => t.kind.isOpening) -
        ((scan source).tokens.countP fun t => t.kind.isClosing) :=
  Bracket.openFrom_run scans

/-- A call that is not finished, with brackets in a string and in a comment. -/
def unfinishedCall : Bytes := utf8 "f(\"\\\")]\", [1 //* ( */ 2"

theorem bracketDepth_unfinishedCall :
    (scan unfinishedCall).fault = none ∧ bracketDepth unfinishedCall = 2 := by
  have scans : (scan unfinishedCall).fault = none := by decide +kernel
  refine ⟨scans, (bracketDepth_eq_tokens scans).trans ?_⟩
  decide +kernel

end Tide
