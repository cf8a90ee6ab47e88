import Mathlib
import Tide.Proofs.Token.Spelling

/-!
# Tokens tile the source

The spans of the tokens lie in the source one behind the other, and between them stands nothing but
blanks and complete comments. A span says where its token was cut out: its bytes scan alone to the
same token, they are its lexeme unless it is a string, and the lines of both its ends count the line
feeds in front of them. All this holds up to the end of a source that scans, and up to the fault of
one that does not.

## Proof strategy

A position marks the bytes in front of it when it has their length and their line. Every step of the
scanner moves a position that marks what was read so far to one that marks a little more. What a
step has skipped is trivia, and what it has taken is a token on its own, whatever follows it.
-/
namespace Tide

def Token.word (t : Token) : Word := ⟨t.kind, t.lexeme⟩

/-- The bytes from one offset up to another. -/
def Bytes.slice (source : Bytes) (start stop : Int) : Bytes :=
  (source.take stop.toNat).drop start.toNat

theorem Bytes.slice_append (before middle rest : Bytes) :
    Bytes.slice (before ++ middle ++ rest) before.length (before ++ middle).length = middle := by
  simp only [Bytes.slice, Int.toNat_natCast, List.take_left, List.drop_left]

/-! ### Blanks and comments -/

/-- Neither these bytes nor they and a star behind them close a comment. -/
def Unclosed (inside : Bytes) : Prop :=
  ¬ ['*'.toUInt8, '/'.toUInt8] <:+: inside ++ ['*'.toUInt8]

/-- Blanks and complete comments, one behind the other. -/
inductive Trivia : Bytes → Prop where
  | nil : Trivia []
  | blank {b : UInt8} {rest : Bytes} (space : b ∈ utf8 " \t\r\n") (more : Trivia rest) :
      Trivia (b :: rest)
  | comment {inside rest : Bytes} (unclosed : Unclosed inside) (more : Trivia rest) :
      Trivia ('/'.toUInt8 :: '*'.toUInt8 :: (inside ++ '*'.toUInt8 :: '/'.toUInt8 :: rest))

/-! ### Positions -/

namespace Position

/-- The position behind these bytes, as far as offset and line are concerned. -/
structure Marks (p : Position) (before : Bytes) : Prop where
  offset : p.offset = before.length
  line : p.line = 1 + before.count '\n'.toUInt8

variable {p : Position} {before : Bytes}

theorem Marks.first : Position.first.Marks [] := ⟨rfl, rfl⟩

theorem Marks.next (marks : p.Marks before) (b : UInt8) : (p.next b).Marks (before ++ [b]) := by
  obtain ⟨offset, line⟩ := marks
  unfold Position.next
  split
  next feed =>
    subst feed
    refine ⟨by simp [offset], ?_⟩
    simp only [line, List.count_append, List.count_singleton_self]
    omega
  next other => exact ⟨by simp [offset], by simp [line, List.count_append, other]⟩

/-- Characters that are no line feeds stay on the line. -/
theorem Marks.forward (marks : p.Marks before) {run : Bytes} (noFeed : '\n'.toUInt8 ∉ run)
    (columns : Nat) : (p.forward run.length columns).Marks (before ++ run) where
  offset := by simp [Position.forward, marks.offset]
  line := by simp [Position.forward, marks.line, List.count_append, List.count_eq_zero.mpr noFeed]

/-- In a source that goes on, what is marked is what stands in front of the offset. -/
theorem Marks.take (marks : p.Marks before) (rest : Bytes) :
    p.Marks ((before ++ rest).take p.offset.toNat) := by
  rw [marks.offset, Int.toNat_natCast, List.take_left]
  exact marks

end Position

namespace Scan

/-! ### What is skipped -/

/-- Trivia, behind the rest of a comment if one is open. -/
def Completes : Option Position → Bytes → Prop
  | none, bytes => Trivia bytes
  | some _, bytes => ∃ inside rest, Unclosed inside ∧ Trivia rest ∧
      bytes = inside ++ '*'.toUInt8 :: '/'.toUInt8 :: rest

namespace Completes

variable {gap : Bytes} {place : Position}

theorem blank {b : UInt8} (space : isSpace b = true) (complete : Completes none gap) :
    Completes none (b :: gap) := by
  refine Trivia.blank ?_ complete
  simp only [isSpace, Bool.or_eq_true, decide_eq_true_eq] at space
  rcases space with ((rfl | rfl) | rfl) | rfl <;> decide

theorem opening (complete : Completes (some place) gap) :
    Completes none ('/'.toUInt8 :: '*'.toUInt8 :: gap) := by
  obtain ⟨inside, rest, unclosed, more, rfl⟩ := complete
  exact .comment unclosed more

theorem closing (complete : Completes none gap) :
    Completes (some place) ('*'.toUInt8 :: '/'.toUInt8 :: gap) := by
  have unclosed : Unclosed [] := by
    unfold Unclosed
    decide
  exact ⟨[], gap, unclosed, complete, rfl⟩

/-- One more byte of a comment, which closes it no more than the others do. -/
theorem cons {b : UInt8} (noClose : b = '*'.toUInt8 → '/'.toUInt8 ∉ gap.head?)
    (complete : Completes (some place) gap) : Completes (some place) (b :: gap) := by
  obtain ⟨inside, rest, unclosed, more, rfl⟩ := complete
  refine ⟨b :: inside, rest, ?_, more, rfl⟩
  intro closed
  rcases List.infix_cons_iff.mp closed with ⟨behind, front⟩ | later
  · obtain ⟨star, front⟩ := List.cons.inj front
    cases inside with
    | nil => exact absurd (List.cons.inj front).1 (by decide)
    | cons c inside =>
      obtain ⟨slash, -⟩ := List.cons.inj front
      exact noClose star.symm (by simp [← slash])
  · exact unclosed later

end Completes

/-- Where skipping came to an end: at something to read, or at a comment that is never closed. -/
def Stops (position : Position) (rest : Bytes) : Except Span Cursor → Prop
  | .ok c => c = ⟨position, rest⟩
  | .error span => span.start = position

/-- The bytes up to a place are trivia that was skipped. -/
structure Skips (opened : Option Position) (p : Position) (bytes : Bytes)
    (result : Except Span Cursor) (gap : Bytes) (stop : Position) (rest : Bytes) : Prop where
  split : bytes = gap ++ rest
  complete : Completes opened gap
  marks : ∀ before, p.Marks before → stop.Marks (before ++ gap)
  stops : Stops stop rest result

namespace Skips

variable {opened : Option Position} {p q stop : Position} {bytes gap rest : Bytes}
  {result : Except Span Cursor}

theorem nothing (stops : Stops p bytes result) : Skips none p bytes result [] p bytes :=
  ⟨rfl, .nil, by simp, stops⟩

/-- Bytes in front, which may open or close a comment. -/
theorem behind {again : Option Position} (front : Bytes)
    (skips : Skips opened q bytes result gap stop rest)
    (moved : ∀ before, p.Marks before → q.Marks (before ++ front))
    (complete : Completes again (front ++ gap)) :
    Skips again p (front ++ bytes) result (front ++ gap) stop rest where
  split := by rw [skips.split, List.append_assoc]
  complete := complete
  marks before marks := by simpa using skips.marks _ (moved before marks)
  stops := skips.stops

theorem byte {b : UInt8} {again : Option Position}
    (skips : Skips opened (p.next b) bytes result gap stop rest)
    (complete : Completes again (b :: gap)) :
    Skips again p (b :: bytes) result (b :: gap) stop rest :=
  skips.behind [b] (fun _ marks => marks.next b) complete

theorem pair {b c : UInt8} {again : Option Position}
    (skips : Skips opened ((p.next b).next c) bytes result gap stop rest)
    (complete : Completes again (b :: c :: gap)) :
    Skips again p (b :: c :: bytes) result (b :: c :: gap) stop rest :=
  skips.behind [b, c] (fun _ marks => by simpa using (marks.next b).next c) complete

end Skips

/-- Either the comment that is open is never closed, or what is skipped is complete. -/
theorem skipTrivia_skips (opened : Option Position) (p : Position) (bytes : Bytes) :
    (∃ span, skipTrivia opened p bytes = .error span ∧ opened = some span.start) ∨
      ∃ gap stop rest, Skips opened p bytes (skipTrivia opened p bytes) gap stop rest := by
  fun_induction skipTrivia opened p bytes with
  | case1 p => exact .inr ⟨[], p, [], .nothing rfl⟩
  | case2 opened p => exact .inl ⟨_, rfl, rfl⟩
  | case3 p b space ih =>
    obtain ⟨_, -, ended⟩ | ⟨gap, stop, rest, skips⟩ := ih
    · simp at ended
    · exact .inr ⟨_, _, _, skips.byte (skips.complete.blank space)⟩
  | case4 p b noSpace => exact .inr ⟨[], p, [b], .nothing rfl⟩
  | case5 opened p b ih => exact .inl ⟨⟨opened, p.next b⟩, by simp [skipTrivia], rfl⟩
  | case6 p b c rest space ih =>
    obtain ⟨_, -, ended⟩ | ⟨gap, stop, rest, skips⟩ := ih
    · simp at ended
    · exact .inr ⟨_, _, _, skips.byte (skips.complete.blank space)⟩
  | case7 p b c rest noSpace pair ih =>
    obtain ⟨rfl, rfl⟩ := pair
    obtain ⟨span, failed, ended⟩ | ⟨gap, stop, rest, skips⟩ := ih
    -- The comment that opens here is where skipping ends.
    · rw [failed]
      exact .inr ⟨[], p, _, .nothing (Option.some.inj ended).symm⟩
    · exact .inr ⟨_, _, _, skips.pair skips.complete.opening⟩
  | case8 p b c rest noSpace noPair => exact .inr ⟨[], p, _, .nothing rfl⟩
  | case9 opened p b c rest pair ih =>
    obtain ⟨rfl, rfl⟩ := pair
    obtain ⟨_, -, ended⟩ | ⟨gap, stop, rest, skips⟩ := ih
    · simp at ended
    · exact .inr ⟨_, _, _, skips.pair skips.complete.closing⟩
  | case10 opened p b c rest noPair ih =>
    obtain ⟨span, failed, ended⟩ | ⟨gap, stop, left, skips⟩ := ih
    · exact .inl ⟨span, failed, ended⟩
    · refine .inr ⟨_, _, _, skips.byte (skips.complete.cons ?_)⟩
      rintro rfl slash
      obtain ⟨gap, rfl⟩ : ∃ later, gap = '/'.toUInt8 :: later := List.head?_eq_some_iff.mp slash
      exact noPair ⟨rfl, (List.cons.inj skips.split).1⟩

theorem skipTrivia_none (p : Position) (bytes : Bytes) :
    ∃ gap stop rest, Skips none p bytes (skipTrivia none p bytes) gap stop rest := by
  obtain ⟨_, -, ended⟩ | skips := skipTrivia_skips none p bytes
  · simp at ended
  · exact skips

/-! ### What is taken -/

/-- These bytes alone are one token. -/
def Alone (bytes : Bytes) (w : Word) : Prop :=
  (scan bytes).fault = none ∧ (scan bytes).tokens.map Token.word = [w, .last]

theorem alone_of_next {bytes : Bytes} {t u : Token} {warnings : List Diagnostic} {c : Cursor}
    (read : next ⟨.first, bytes⟩ = .token t warnings c) (nothing : c.rest = [])
    (kind : t.kind = u.kind) (lexeme : t.lexeme = u.lexeme) : Alone bytes u.word := by
  obtain ⟨p, rest⟩ := c
  obtain rfl : rest = [] := nothing
  have same : t.word = u.word := by simp [Token.word, kind, lexeme]
  rw [Alone, scan, run_token read, run_finished (next_nil p), ← same]
  exact ⟨rfl, rfl⟩

/-- The bytes that were read as a token, in front of what was left. -/
structure Takes (p : Position) (bytes : Bytes) (t : Token) (c : Cursor) (taken : Bytes) :
    Prop where
  split : bytes = taken ++ c.rest
  filled : taken ≠ []
  span : t.span = ⟨p, c.position⟩
  marks : ∀ before, p.Marks before → c.position.Marks (before ++ taken)
  kind : t.kind ≠ .eof
  lexeme : t.kind ≠ .string → t.lexeme = taken
  alone : Alone taken t.word

/-- The inside of a string is read in the same way whatever follows its closing quote. -/
theorem readString_inside {quote : UInt8} (ascii : quote < 0x80) {p : Position} {bytes : Bytes}
    {c : Cursor} (closes : Closes quote p bytes c) :
    ∃ inside, bytes = inside ++ quote :: c.rest ∧
      (∀ before, p.Marks before → c.position.Marks (before ++ inside ++ [quote])) ∧
      ∀ q more, (readString quote q (inside ++ quote :: more)).value =
          (readString quote p bytes).value ∧
        ∃ r, (readString quote q (inside ++ quote :: more)).ended = .ok ⟨r, more⟩ := by
  induction closes with
  | close p rest =>
    refine ⟨[], rfl, fun before marks => by simpa using marks.next quote, fun q more => ?_⟩
    rw [List.nil_append, readString_close, readString_close]
    exact ⟨rfl, _, rfl⟩
  | escape p e rest c noClose _ ih =>
    obtain ⟨inside, rfl, marked, again⟩ := ih
    refine ⟨'\\'.toUInt8 :: e :: inside, rfl, fun before marks => ?_, fun q more => ?_⟩
    · simpa using marked _ ((marks.next '\\'.toUInt8).next e)
    · rw [List.cons_append, List.cons_append, readString_escape noClose, readString_escape noClose]
      obtain ⟨value, ended⟩ := again ((q.next '\\'.toUInt8).next e) more
      exact ⟨by simp [value], ended⟩
  | ascii p b rest c noClose noEscape low _ ih =>
    obtain ⟨inside, rfl, marked, again⟩ := ih
    refine ⟨b :: inside, rfl, fun before marks => ?_, fun q more => ?_⟩
    · simpa using marked _ (marks.next b)
    · rw [List.cons_append, readString_ascii noClose noEscape low,
        readString_ascii noClose noEscape low]
      obtain ⟨value, ended⟩ := again (q.next b) more
      exact ⟨by simp [value], ended⟩
  | piece p b rest c noClose noEscape high _ ih =>
    obtain ⟨inside, split, marked, again⟩ := ih
    obtain ⟨taken, tail, spelled, others⟩ := Utf8.uncons_bytes b rest
    -- The closing quote is ASCII, so no piece reaches across it.
    have same (more : Bytes) : Utf8.uncons b (taken ++ inside ++ quote :: more) =
        ((Utf8.uncons b rest).1, inside ++ quote :: more) := by
      have here := Utf8.uncons_append (Utf8.parted_cons ascii c.rest) b (taken ++ inside)
      rw [List.append_assoc, ← split, ← tail] at here
      have left : (Utf8.uncons b (taken ++ inside)).2 = inside := by
        have rests := congrArg Prod.snd here
        rw [split] at rests
        exact (List.append_cancel_right rests).symm
      have piece : (Utf8.uncons b (taken ++ inside)).1 = (Utf8.uncons b rest).1 :=
        (congrArg Prod.fst here).symm
      rw [Utf8.uncons_append (Utf8.parted_cons ascii more), left, piece]
    have noFeed : '\n'.toUInt8 ∉ (Utf8.uncons b rest).1.bytes := by
      rw [spelled, List.mem_cons]
      rintro (rfl | member)
      · exact high (by decide)
      · exact others _ member (by decide)
    refine ⟨b :: taken ++ inside, ?_, fun before marks => ?_, fun q more => ?_⟩
    · rw [List.cons_append, List.cons_append, List.append_assoc, ← split, ← tail]
    · have moved := marked _ (marks.forward noFeed 1)
      rwa [spelled, List.append_assoc before] at moved
    · obtain ⟨value, ended⟩ := again (q.forward (Utf8.uncons b rest).1.bytes.length 1) more
      rw [List.cons_append, List.cons_append, readString_piece noClose noEscape high, same,
        readString_piece noClose noEscape high]
      exact ⟨by simp [value], ended⟩

section

variable {p : Position} {t : Token} {warnings : List Diagnostic} {c : Cursor}

theorem takes_of_closes {quote : UInt8} {rest : Bytes} (opened : isQuote quote = true)
    (closes : Closes quote (p.next quote) rest c) :
    ∃ taken, Takes p (quote :: rest)
      ⟨.string, (readString quote (p.next quote) rest).value, ⟨p, c.position⟩⟩ c taken := by
  obtain ⟨ascii, -⟩ := plain_of_isQuote opened
  obtain ⟨inside, rfl, marked, again⟩ := readString_inside ascii closes
  obtain ⟨value, r, closed⟩ := again (Position.first.next quote) []
  have alone := next_quoted opened .first (inside ++ [quote])
  rw [readQuoted_ended closed, value] at alone
  exact ⟨quote :: (inside ++ [quote]), {
    split := by simp
    filled := by simp
    span := rfl
    marks := fun before marks => by simpa using marked _ (marks.next quote)
    kind := by simp
    lexeme := by simp
    alone := alone_of_next alone rfl rfl rfl }⟩

theorem takes_of_readNumber {b : UInt8} {rest : Bytes} (digit : isDigit b = true)
    (read : readNumber p (b :: rest) = .token t warnings c) :
    ∃ taken, Takes p (b :: rest) t c taken := by
  simp only [readNumber, Step.token.injEq] at read
  obtain ⟨rfl, -, rfl⟩ := read
  change ∃ taken, Takes p (b :: rest) ⟨(Word.digits ((b :: rest).takeWhile isRun)).kind, _, _⟩ _ _
  have first : (b :: rest).takeWhile isRun = b :: rest.takeWhile isRun :=
    List.takeWhile_cons_of_pos (by simp [isRun, digit])
  have inRun : (rest.takeWhile isRun).all isRun = true := by
    rw [List.all_eq_true]
    exact fun _ member => List.mem_takeWhile_imp member
  have alone := @next_digits b (rest.takeWhile isRun) [] digit inRun (by simp) .first
  rw [List.append_nil, ← first] at alone
  obtain ⟨u, r, alone, kind, lexeme⟩ := alone
  refine ⟨(b :: rest).takeWhile isRun, {
    split := List.takeWhile_append_dropWhile.symm
    filled := by simp [first]
    span := rfl
    marks := fun before marks => marks.forward (feed_notMem_run _) _
    kind := ?_
    lexeme := fun _ => rfl
    alone := alone_of_next alone rfl kind lexeme }⟩
  simp only [Word.digits]
  split <;> simp

theorem takes_of_readWord {lead : UInt8} {tail : Bytes} (noQuote : isQuote lead = false)
    (noDigit : isDigit lead = false)
    (start : isNameStart (Utf8.uncons lead tail).1.char = true)
    (read : readWord p (lead :: tail) = .token t warnings c) :
    ∃ taken, Takes p (lead :: tail) t c taken := by
  obtain ⟨u, r, alone, nothing, kind, lexeme⟩ := lone_of_readWord noQuote noDigit start read
  simp only [readWord, Step.token.injEq] at read
  obtain ⟨rfl, -, rfl⟩ := read
  refine ⟨(Utf8.span isNamePart (lead :: tail)).1, {
    split := (Utf8.span_bytes isNamePart (lead :: tail)).1
    filled := ?_
    span := rfl
    marks := fun before marks => marks.forward (feed_notMem_word _) _
    kind := ofWord_ne_eof _
    lexeme := fun _ => rfl
    alone := alone_of_next alone nothing kind lexeme }⟩
  intro empty
  simp [empty, next_nil] at alone

theorem takes_of_readToken {bytes : Bytes} (read : readToken ⟨p, bytes⟩ = .token t warnings c) :
    ∃ taken, Takes p bytes t c taken := by
  cases reading_of_readToken read with
  | quoted quote rest c opened closes => exact takes_of_closes opened closes
  | number b rest t warnings c _ digit _ read => exact takes_of_readNumber digit read
  | word lead tail t warnings c noQuote noDigit start _ read =>
    exact takes_of_readWord noQuote noDigit start read
  | symbol symbol rest =>
    exact ⟨[symbol.byte], {
      split := rfl
      filled := by simp
      span := rfl
      marks := fun before marks => marks.next _
      kind := by simp
      lexeme := fun _ => rfl
      alone := alone_of_next (next_symbol symbol [] (by simp) .first) rfl rfl rfl }⟩

theorem start_of_failed {bytes : Bytes} {fault : Diagnostic}
    (read : readToken ⟨p, bytes⟩ = .failed fault warnings) : fault.span.start = p := by
  cases bytes with
  | nil => simp [readToken] at read
  | cons b rest =>
    simp only [readToken, readQuoted, readNumber, readWord] at read
    repeat' split at read
    all_goals first | (obtain ⟨rfl, -⟩ := read; rfl) | simp at read

end

end Scan

/-! ### The whole source -/

open Scan

/-- Where and how a token was cut out of the source. -/
structure Token.Cut (source : Bytes) (t : Token) : Prop where
  filled : t.span.start.offset < t.span.stop.offset
  starts : t.span.start.Marks (source.take t.span.start.offset.toNat)
  stops : t.span.stop.Marks (source.take t.span.stop.offset.toNat)
  kind : t.kind ≠ .eof
  lexeme : t.kind ≠ .string →
    t.lexeme = Bytes.slice source t.span.start.offset t.span.stop.offset
  alone : Alone (Bytes.slice source t.span.start.offset t.span.stop.offset) t.word

/-- The tokens cover the source from one offset to another, but for the trivia between them. -/
inductive Tiles (source : Bytes) : Int → List Token → Int → Prop where
  | gap {start stop : Int} (ordered : start ≤ stop) (inside : stop ≤ source.length)
      (trivia : Trivia (Bytes.slice source start stop)) : Tiles source start [] stop
  | token {start stop : Int} {t : Token} {tokens : List Token}
      (ordered : start ≤ t.span.start.offset)
      (trivia : Trivia (Bytes.slice source start t.span.start.offset)) (cut : t.Cut source)
      (rest : Tiles source t.span.stop.offset tokens stop) : Tiles source start (t :: tokens) stop

namespace Tiles

variable {source : Bytes} {start stop : Int} {tokens : List Token}

theorem le (tiles : Tiles source start tokens stop) : start ≤ stop := by
  induction tiles with
  | gap ordered => exact ordered
  | token ordered trivia cut rest ih =>
    have filled := cut.filled
    omega

theorem start_le (tiles : Tiles source start tokens stop) :
    ∀ t ∈ tokens, start ≤ t.span.start.offset := by
  induction tiles with
  | gap => simp
  | token ordered trivia cut rest ih =>
    refine List.forall_mem_cons.mpr ⟨ordered, fun u member => ?_⟩
    have filled := cut.filled
    have later := ih u member
    omega

theorem stop_le (tiles : Tiles source start tokens stop) :
    ∀ t ∈ tokens, t.span.stop.offset ≤ stop := by
  induction tiles with
  | gap => simp
  | token ordered trivia cut rest ih => exact List.forall_mem_cons.mpr ⟨rest.le, ih⟩

theorem pairwise (tiles : Tiles source start tokens stop) :
    tokens.Pairwise fun t u => t.span.stop.offset ≤ u.span.start.offset := by
  induction tiles with
  | gap => exact .nil
  | token ordered trivia cut rest ih => exact .cons rest.start_le ih

end Tiles

/-- The end of a source: an empty token behind all of its bytes. -/
structure Token.Ends (source : Bytes) (last : Token) : Prop where
  word : last.word = .last
  empty : last.span.stop = last.span.start
  marks : last.span.start.Marks source

/-- What tokens and fault say of the source from an offset on. -/
def Scanned.Covers (source : Bytes) (start : Int) (scanned : Scanned) : Prop :=
  match scanned.fault with
  | none => ∃ tokens last, scanned.tokens = tokens ++ [last] ∧ last.Ends source ∧
      Tiles source start tokens source.length
  | some fault => Tiles source start scanned.tokens fault.span.start.offset

theorem Scanned.Covers.token {source : Bytes} {start : Int} {t : Token} {later : Scanned}
    (ordered : start ≤ t.span.start.offset)
    (trivia : Trivia (Bytes.slice source start t.span.start.offset)) (cut : t.Cut source)
    (covers : later.Covers source t.span.stop.offset) (warnings : List Diagnostic) :
    Scanned.Covers source start ⟨t :: later.tokens, warnings, later.fault⟩ := by
  unfold Scanned.Covers at covers ⊢
  simp only
  split at covers
  next =>
    obtain ⟨tokens, last, split, ends, tiles⟩ := covers
    exact ⟨t :: tokens, last, by rw [split, List.cons_append], ends,
      .token ordered trivia cut tiles⟩
  next => exact .token ordered trivia cut covers

namespace Scan

/-- A gap that was skipped from a place on, as a slice of the source. -/
theorem Skips.slice {p stop : Position} {before bytes gap rest : Bytes}
    {result : Except Span Cursor} (skips : Skips none p bytes result gap stop rest)
    (marks : p.Marks before) :
    (before.length : Int) ≤ stop.offset ∧ stop.offset ≤ (before ++ bytes).length ∧
      Trivia (Bytes.slice (before ++ bytes) before.length stop.offset) := by
  rw [(skips.marks before marks).offset, skips.split, ← List.append_assoc, Bytes.slice_append]
  exact ⟨by simp, by simp, skips.complete⟩

/-- A token that was taken from a place on, as a slice of the source. -/
theorem Takes.cut {p : Position} {before bytes taken : Bytes} {t : Token} {c : Cursor}
    (takes : Takes p bytes t c taken) (marks : p.Marks before) : t.Cut (before ++ bytes) := by
  obtain ⟨kind, lexeme, span⟩ := t
  obtain rfl : span = ⟨p, c.position⟩ := takes.span
  have behind := takes.marks before marks
  have whole : before ++ bytes = before ++ taken ++ c.rest := by rw [takes.split, List.append_assoc]
  have slice : Bytes.slice (before ++ bytes) p.offset c.position.offset = taken := by
    rw [marks.offset, behind.offset, whole, Bytes.slice_append]
  exact {
    filled := by
      have filled := List.length_pos_of_ne_nil takes.filled
      simp only [marks.offset, behind.offset, List.length_append]
      omega
    starts := marks.take bytes
    stops := by
      rw [whole]
      exact behind.take c.rest
    kind := takes.kind
    lexeme := fun other => (takes.lexeme other).trans slice.symm
    alone := by simpa only [slice] using takes.alone }

/-- A step skips trivia, and then it reads a token or fails at once. -/
theorem next_skips (cursor : Cursor) :
    ∃ gap stop rest, Skips none cursor.position cursor.rest
        (skipTrivia none cursor.position cursor.rest) gap stop rest ∧
      (next cursor = readToken ⟨stop, rest⟩ ∨
        ∃ fault, next cursor = .failed fault [] ∧ fault.span.start = stop) := by
  obtain ⟨gap, stop, rest, skips⟩ := skipTrivia_none cursor.position cursor.rest
  refine ⟨gap, stop, rest, skips, ?_⟩
  have stops := skips.stops
  unfold next
  split
  next span failed =>
    rw [failed] at stops
    exact .inr ⟨_, rfl, stops⟩
  next c skipped =>
    rw [skipped] at stops
    obtain rfl : c = ⟨stop, rest⟩ := stops
    exact .inl rfl

theorem covers_of_run {source before : Bytes} {cursor : Cursor}
    (split : source = before ++ cursor.rest) (marks : cursor.position.Marks before) :
    (run cursor).Covers source before.length := by
  -- Along the run `before` grows by a gap and a token at each step.
  induction cursor using run.induct generalizing before with
  | case1 cursor last read =>
    obtain ⟨gap, stop, rest, skips, reads | ⟨fault, failed, -⟩⟩ := next_skips cursor
    · obtain ⟨nothing, rfl⟩ := rest_of_finished (reads.symm.trans read)
      obtain rfl : rest = [] := nothing
      obtain ⟨ordered, -, trivia⟩ := skips.slice marks
      have behind := skips.marks before marks
      have whole : before ++ gap = source := by rw [split, skips.split, List.append_nil]
      rw [whole] at behind
      rw [← split, behind.offset] at trivia
      rw [behind.offset] at ordered
      rw [run_finished read]
      exact ⟨[], _, rfl, ⟨rfl, rfl, behind⟩, .gap ordered le_rfl trivia⟩
    · simp [failed] at read
  | case2 cursor fault warnings read =>
    obtain ⟨gap, stop, rest, skips, ended⟩ := next_skips cursor
    have place : fault.span.start = stop := by
      obtain reads | ⟨_, failed, place⟩ := ended
      · exact start_of_failed (reads.symm.trans read)
      · obtain ⟨rfl, -⟩ := Step.failed.inj (read.symm.trans failed)
        exact place
    obtain ⟨ordered, inside, trivia⟩ := skips.slice marks
    rw [← split] at inside trivia
    rw [run_failed read]
    exact .gap (place ▸ ordered) (place ▸ inside) (place ▸ trivia)
  | case3 cursor t warnings c read ih =>
    obtain ⟨gap, stop, rest, skips, reads | ⟨fault, failed, -⟩⟩ := next_skips cursor
    · obtain ⟨taken, takes⟩ := takes_of_readToken (reads.symm.trans read)
      obtain ⟨ordered, -, trivia⟩ := skips.slice marks
      have stands := skips.marks before marks
      have whole : source = before ++ gap ++ rest := by rw [split, skips.split, List.append_assoc]
      have behind := takes.marks _ stands
      have cut := takes.cut stands
      have later := ih (by rw [whole, takes.split, ← List.append_assoc]) behind
      rw [← split] at trivia
      rw [← whole] at cut
      rw [← behind.offset] at later
      rw [run_token read]
      obtain ⟨kind, lexeme, span⟩ := t
      obtain rfl : span = ⟨stop, c.position⟩ := takes.span
      exact .token ordered trivia cut later _
    · simp [failed] at read

end Scan

theorem covers_scan (source : Bytes) : (scan source).Covers source 0 := by
  have start : source = [] ++ (⟨.first, source⟩ : Cursor).rest := rfl
  exact covers_of_run start .first

/-- The tokens of a source stand one behind the other, each cut out of it, with trivia in front of
them and between them. They cover the source up to its fault, or up to its end, where an end token
stands behind them. -/
theorem tokens_tile_source (source : Bytes) :
    (scan source).tokens.Pairwise (fun t u => t.span.stop.offset ≤ u.span.start.offset) ∧
      match (scan source).fault with
      | none => ∃ tokens last, (scan source).tokens = tokens ++ [last] ∧ last.Ends source ∧
          Tiles source 0 tokens source.length
      | some fault => Tiles source 0 (scan source).tokens fault.span.start.offset := by
  have covers := covers_scan source
  refine ⟨?_, covers⟩
  unfold Scanned.Covers at covers
  split at covers
  next =>
    obtain ⟨tokens, last, split, ends, tiles⟩ := covers
    rw [split, List.pairwise_append]
    refine ⟨tiles.pairwise, List.pairwise_singleton _ _, fun t member u isLast => ?_⟩
    obtain rfl := List.mem_singleton.mp isLast
    rw [ends.marks.offset]
    exact tiles.stop_le t member
  next => exact covers.pairwise

end Tide
