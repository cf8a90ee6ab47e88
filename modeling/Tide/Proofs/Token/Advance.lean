import Tide.Proofs.Text.Widths
import Tide.Proofs.Token.Tiling

/-!
# How columns advance

What the steps of the scanner add to the column, measured against the characters of the line. Words,
numbers and symbols add one for each character. Blanks and comments are passed byte by byte, so that
a character of several bytes adds more than one; so are a backslash in a string and the byte behind
it, and no other byte of a string.

## Proof strategy

A position counts the characters in front of it on its line, up to an extra that each byte may have.
Inside of a character there is no telling how many characters stand in front, so both the characters
of what stands in front together with the rest and those of the rest alone are counted. A byte that
is passed for itself then needs an extra of the other bytes of its character, and a character that
is passed as one needs none.
-/
namespace Tide

open Utf8

/-! ### Lines -/

namespace Bytes

/-- What stands behind the last line feed. -/
def lastLine (bytes : Bytes) : Bytes := bytes.rtakeWhile (· ≠ '\n'.toUInt8)

theorem lastLine_feed (bytes : Bytes) : lastLine (bytes ++ ['\n'.toUInt8]) = [] := by
  simp [lastLine]

theorem lastLine_append (bytes : Bytes) {run : Bytes} (noFeed : '\n'.toUInt8 ∉ run) :
    lastLine (bytes ++ run) = lastLine bytes ++ run := by
  induction run using List.reverseRecOn with
  | nil => simp
  | append_singleton run b ih =>
    have others : '\n'.toUInt8 ∉ run := fun member => noFeed (by simp [member])
    have other : b ≠ '\n'.toUInt8 := fun same => noFeed (by simp [same])
    rw [← List.append_assoc, lastLine, List.rtakeWhile_concat_pos _ _ _ (by simpa using other),
      ← lastLine, ih others, List.append_assoc]

theorem length_lastLine_le (bytes : Bytes) : (lastLine bytes).length ≤ bytes.length :=
  (List.rtakeWhile_suffix _ _).length_le

theorem mem_Ico_lastLine (bytes : Bytes) (i : Nat) :
    i ∈ Finset.Ico (bytes.length - (lastLine bytes).length) bytes.length ↔
      i < bytes.length ∧ '\n'.toUInt8 ∉ bytes.drop i := by
  rw [Finset.mem_Ico, and_comm, and_congr_right_iff]
  intro inside
  -- The last line is the longest end of the bytes without a line feed.
  constructor
  · intro low feed
    obtain ⟨front, split⟩ : lastLine bytes <:+ bytes := List.rtakeWhile_suffix _ _
    have first : front.length ≤ i := by
      have size := congrArg List.length split
      rw [List.length_append] at size
      omega
    rw [← split, List.drop_append, List.drop_eq_nil_of_le first, List.nil_append] at feed
    have other := List.mem_rtakeWhile_imp (List.mem_of_mem_drop feed)
    simp at other
  · intro noFeed
    have line := lastLine_append (bytes.take i) noFeed
    rw [List.take_append_drop] at line
    rw [line, List.length_append, List.length_drop]
    omega

/-- Behind a backslash that is not itself behind such a one. -/
def Escaped (inside : Bytes) : Prop := (inside.rtakeWhile (· = '\\'.toUInt8)).length % 2 = 1

theorem not_escaped_nil : ¬ Escaped [] := by
  simp [Escaped]

theorem escaped_backslash (inside : Bytes) :
    Escaped (inside ++ ['\\'.toUInt8]) ↔ ¬ Escaped inside := by
  rw [Escaped, Escaped, List.rtakeWhile_concat_pos _ _ _ (by simp), List.length_append,
    List.length_singleton]
  omega

theorem not_escaped_of_ne (inside : Bytes) {b : UInt8} (other : b ≠ '\\'.toUInt8) :
    ¬ Escaped (inside ++ [b]) := by
  rw [Escaped, List.rtakeWhile_concat_neg _ _ _ (by simpa using other)]
  simp

theorem not_escaped_append {inside run : Bytes} (plain : ¬ Escaped inside)
    (others : ∀ b ∈ run, b ≠ '\\'.toUInt8) : ¬ Escaped (inside ++ run) := by
  cases run using List.reverseRecOn with
  | nil => simpa using plain
  | append_singleton run b =>
    rw [← List.append_assoc]
    exact not_escaped_of_ne _ (others b (by simp))

end Bytes

open Bytes

/-! ### Positions that count -/

namespace Position

/-- How far the column of a position is from the characters in front of it on the line: it has that
much more as the extra of the bytes says. Characters are counted from where the rest begins, so that
no byte in front needs to end one. -/
def Counts (extra : Nat → Nat) (p : Position) (before rest : Bytes) : Prop :=
  p.column + count rest = 1 + count (lastLine before ++ rest) +
    (∑ i ∈ Finset.Ico (before.length - (lastLine before).length) before.length, extra i : Nat)

namespace Counts

variable {extra : Nat → Nat} {p : Position} {before rest : Bytes}

theorem first (source : Bytes) : Position.first.Counts extra [] source := by
  simp [Counts, Position.first, lastLine]

/-- A run of characters on the line that are counted as such. -/
theorem forward {run : Bytes} {columns : Nat} (counts : p.Counts extra before (run ++ rest))
    (noFeed : '\n'.toUInt8 ∉ run) (cost : count (run ++ rest) = columns + count rest)
    (free : ∀ i, before.length ≤ i → i < before.length + run.length → extra i = 0) :
    (p.forward run.length columns).Counts extra (before ++ run) rest := by
  have short := length_lastLine_le before
  have nothing : ∑ i ∈ Finset.Ico before.length (before.length + run.length), extra i = 0 :=
    Finset.sum_eq_zero fun i inside =>
      free i (Finset.mem_Ico.mp inside).1 (Finset.mem_Ico.mp inside).2
  unfold Counts at counts ⊢
  rw [lastLine_append before noFeed, List.length_append, List.length_append, Nat.add_sub_add_right,
    ← Finset.sum_Ico_consecutive extra (Nat.sub_le ..) (Nat.le_add_right ..), nothing,
    List.append_assoc]
  simp only [Position.forward]
  omega

/-- A byte that is counted for itself. -/
theorem next {b : UInt8} (counts : p.Counts extra before (b :: rest))
    (cost : count (b :: rest) + extra before.length = 1 + count rest) :
    (p.next b).Counts extra (before ++ [b]) rest := by
  unfold Position.next
  split
  next feed =>
    subst feed
    simp [Counts, lastLine_feed]
  next other =>
    have short := length_lastLine_le before
    unfold Counts at counts ⊢
    rw [lastLine_append before (by simpa using Ne.symm other), List.length_append,
      List.length_append, Nat.add_sub_add_right, List.length_singleton,
      Finset.sum_Ico_succ_top (Nat.sub_le ..), List.append_assoc, List.singleton_append]
    simp only
    omega

/-- Bytes that are counted for themselves, each at the cost of the others of its character. -/
theorem bytes {run : Bytes} (counts : p.Counts extra before (run ++ rest))
    (costs : ∀ front b back, run = front ++ b :: back →
      extra (before ++ front).length = width (b :: (back ++ rest)) - 1) :
    (run.foldl Position.next p).Counts extra (before ++ run) rest := by
  induction run generalizing p before with
  | nil => simpa using counts
  | cons b run ih =>
    have cost : extra before.length = width (b :: (run ++ rest)) - 1 := by
      simpa using costs [] b run rfl
    rw [List.cons_append] at counts
    have moved := counts.next (by rw [cost, count_cons_add_width])
    rw [List.foldl_cons, ← List.singleton_append, ← List.append_assoc]
    refine ih moved fun front b' back split => ?_
    simpa using costs (b :: front) b' back (by rw [split, List.cons_append])

end Counts

end Position

/-! ### Ends of characters -/

theorem whole_lastLine_concat {b : UInt8} (ascii : b < 0x80) (bytes : Bytes) :
    Whole (lastLine (bytes ++ [b])) := by
  by_cases feed : b = '\n'.toUInt8
  · rw [feed, lastLine_feed]
    exact whole_nil
  · rw [lastLine_append bytes (by simpa using Ne.symm feed)]
    exact whole_of_ascii ascii _

theorem count_ascii_run {run : Bytes} (ascii : ∀ b ∈ run, b < 0x80) (rest : Bytes) :
    count (run ++ rest) = run.length + count rest := by
  induction run with
  | nil => simp
  | cons b run ih =>
    rw [List.cons_append, count_ascii (ascii b (by simp)),
      ih fun b member => ascii b (by simp [member]), List.length_cons]
    omega

theorem whole_of_ascii_run {run : Bytes} (ascii : ∀ b ∈ run, b < 0x80) : Whole run := by
  intro more
  have alone := count_ascii_run ascii []
  rw [List.append_nil, count_nil, Nat.add_zero] at alone
  rw [count_ascii_run ascii, alone]

/-- Blanks and comments end with an ASCII byte. -/
theorem Trivia.last {gap : Bytes} (trivia : Trivia gap) :
    gap = [] ∨ ∃ front b, gap = front ++ [b] ∧ b < 0x80 := by
  induction trivia with
  | nil => exact .inl rfl
  | @blank b rest space _ ih =>
    right
    obtain rfl | ⟨front, b', rfl, ascii⟩ := ih
    · have each : ∀ b ∈ utf8 " \t\r\n", b < 0x80 := by decide +kernel
      exact ⟨[], b, rfl, each b space⟩
    · exact ⟨b :: front, b', rfl, ascii⟩
  | @comment inside rest _ _ ih =>
    right
    obtain rfl | ⟨front, b', rfl, ascii⟩ := ih
    · exact ⟨'/'.toUInt8 :: '*'.toUInt8 :: (inside ++ ['*'.toUInt8]), '/'.toUInt8, by simp,
        by decide⟩
    · exact ⟨'/'.toUInt8 :: '*'.toUInt8 :: (inside ++ '*'.toUInt8 :: '/'.toUInt8 :: front), b',
        by simp, ascii⟩

theorem Trivia.whole {gap before : Bytes} (trivia : Trivia gap) (whole : Whole (lastLine before)) :
    Whole (lastLine (before ++ gap)) := by
  obtain rfl | ⟨front, b, rfl, ascii⟩ := trivia.last
  · simpa using whole
  · rw [← List.append_assoc]
    exact whole_lastLine_concat ascii _

namespace Scan

/-! ### Strings -/

/-- Of the bytes of a string up to an offset, those behind an escaping backslash cost as much extra
as their character has further bytes, and the others nothing. -/
def Quoted (extra : Nat → Nat) (source head : Bytes) (stop : Nat) : Prop :=
  ∀ seen rest, source = head ++ seen ++ rest → (head ++ seen).length < stop →
    (Escaped seen → extra (head ++ seen).length = width rest - 1) ∧
      (¬ Escaped seen → extra (head ++ seen).length = 0)

section

variable {extra : Nat → Nat} {source head seen rest : Bytes} {stop : Nat} {p : Position}

/-- A backslash and the byte behind it. -/
theorem Quoted.pair (quoted : Quoted extra source head stop) {e : UInt8}
    (split : source = head ++ seen ++ '\\'.toUInt8 :: e :: rest)
    (inside : (head ++ seen).length + 1 < stop) (plain : ¬ Escaped seen)
    (counts : p.Counts extra (head ++ seen) ('\\'.toUInt8 :: e :: rest)) :
    ((p.next '\\'.toUInt8).next e).Counts extra (head ++ (seen ++ ['\\'.toUInt8, e])) rest ∧
      ¬ Escaped (seen ++ ['\\'.toUInt8, e]) := by
  -- Only the second byte has the backslash in front of it.
  have escaped : Escaped (seen ++ ['\\'.toUInt8]) := (escaped_backslash seen).mpr plain
  have free := (quoted seen _ split (by omega)).2 plain
  have behind : source = head ++ (seen ++ ['\\'.toUInt8]) ++ e :: rest := by simp [split]
  have cost := (quoted _ _ behind (by simpa [← Nat.add_assoc] using inside)).1 escaped
  have first := counts.next (by rw [free, count_ascii (by decide), Nat.add_zero])
  rw [List.append_assoc] at first
  have second := first.next (by rw [cost, count_cons_add_width])
  refine ⟨by simpa using second, ?_⟩
  rw [← List.singleton_append, ← List.append_assoc]
  by_cases again : e = '\\'.toUInt8
  · rw [again, escaped_backslash]
    exact not_not_intro escaped
  · exact not_escaped_of_ne _ again

/-- Bytes without a backslash in front of them or among them cost nothing. -/
theorem Quoted.free (quoted : Quoted extra source head stop) {run : Bytes}
    (split : source = head ++ seen ++ (run ++ rest))
    (inside : (head ++ seen).length + run.length ≤ stop) (plain : ¬ Escaped seen)
    (others : ∀ b ∈ run, b ≠ '\\'.toUInt8) (i : Nat) (low : (head ++ seen).length ≤ i)
    (high : i < (head ++ seen).length + run.length) : extra i = 0 := by
  -- The offset splits the run, and what is in front of it ends with no backslash either.
  obtain ⟨k, rfl⟩ := Nat.exists_eq_add_of_le low
  have front : (run.take k).length = k := List.length_take_of_le (by omega)
  have place : (head ++ (seen ++ run.take k)).length = (head ++ seen).length + k := by
    simp [front, Nat.add_assoc]
  have cut : source = head ++ (seen ++ run.take k) ++ (run.drop k ++ rest) := by
    rw [split, ← List.append_assoc head seen, List.append_assoc (head ++ seen),
      ← List.append_assoc (run.take k), List.take_append_drop]
  have unescaped : ¬ Escaped (seen ++ run.take k) :=
    not_escaped_append plain fun b member => others b (List.mem_of_mem_take member)
  have free := (quoted _ _ cut (by rw [place]; omega)).2 unescaped
  rwa [place] at free

/-- A character that no backslash stands in front of. -/
theorem Quoted.piece (quoted : Quoted extra source head stop) {b : UInt8} {tail : Bytes}
    (split : source = head ++ seen ++ b :: tail)
    (inside : (head ++ seen).length + width (b :: tail) ≤ stop) (plain : ¬ Escaped seen)
    (high : ¬ b < 0x80) (counts : p.Counts extra (head ++ seen) (b :: tail)) :
    (p.forward (width (b :: tail)) 1).Counts extra
        (head ++ (seen ++ (uncons b tail).1.bytes)) (uncons b tail).2 ∧
      ¬ Escaped (seen ++ (uncons b tail).1.bytes) := by
  obtain ⟨taken, behind, spelled, others⟩ := uncons_bytes b tail
  have bytes : b :: tail = (uncons b tail).1.bytes ++ (uncons b tail).2 := by
    rw [spelled, List.cons_append, ← behind]
  have noAscii : ∀ b' ∈ (uncons b tail).1.bytes, ¬ b' < 0x80 := by
    rw [spelled]
    exact List.forall_mem_cons.mpr ⟨high, others⟩
  have noSlash : ∀ b' ∈ (uncons b tail).1.bytes, b' ≠ '\\'.toUInt8 :=
    fun b' member same => noAscii b' member (by rw [same]; decide)
  rw [bytes] at counts split
  refine ⟨?_, not_escaped_append plain noSlash⟩
  rw [← List.append_assoc]
  refine counts.forward (fun feed => noAscii _ feed (by decide)) ?_ ?_
  · rw [← bytes, count_cons]
  · exact quoted.free split inside plain noSlash

end

theorem readString_counts {extra : Nat → Nat} {quote : UInt8} (ascii : quote < 0x80)
    {source head : Bytes} {c : Cursor}
    (quoted : Quoted extra source head (source.length - c.rest.length)) {p : Position}
    {bytes seen : Bytes} (split : source = head ++ seen ++ bytes) (plain : ¬ Escaped seen)
    (counts : p.Counts extra (head ++ seen) bytes) (closes : Closes quote p bytes c) :
    ∃ inside, bytes = inside ++ c.rest ∧
      c.position.Counts extra (head ++ seen ++ inside) c.rest := by
  -- What is still to be read ends in front of the rest.
  have within {p : Position} {front bytes : Bytes} {c : Cursor} (split : source = front ++ bytes)
      (closes : Closes quote p bytes c) : front.length < source.length - c.rest.length := by
    have shorter := closes.length_lt
    simp only [split, List.length_append]
    omega
  induction closes generalizing seen with
  | close p rest =>
    have free := (quoted seen _ split (within split (.close p rest))).2 plain
    exact ⟨[quote], rfl, counts.next (by rw [free, count_ascii ascii, Nat.add_zero])⟩
  | escape p e rest c noClose more ih =>
    have behind : source = head ++ (seen ++ ['\\'.toUInt8, e]) ++ rest := by simp [split]
    have inside := within behind more
    obtain ⟨moved, unescaped⟩ := quoted.pair split (by simp at inside ⊢; omega) plain counts
    obtain ⟨inside, rfl, done⟩ := ih quoted behind unescaped moved
    exact ⟨'\\'.toUInt8 :: e :: inside, rfl, by simpa using done⟩
  | ascii p b rest c noClose noEscape low more ih =>
    have free := (quoted seen _ split
      (within split (.ascii p b rest c noClose noEscape low more))).2 plain
    have moved := counts.next (by rw [free, count_ascii low, Nat.add_zero])
    rw [List.append_assoc] at moved
    obtain ⟨inside, rfl, done⟩ :=
      ih quoted (by simp [split]) (not_escaped_of_ne seen noEscape) moved
    exact ⟨b :: inside, rfl, by simpa using done⟩
  | piece p b rest c noClose noEscape high more ih =>
    obtain ⟨taken, tail, spelled, -⟩ := uncons_bytes b rest
    have bytes : b :: rest = (uncons b rest).1.bytes ++ (uncons b rest).2 := by
      rw [spelled, List.cons_append, ← tail]
    have behind : source = head ++ (seen ++ (uncons b rest).1.bytes) ++ (uncons b rest).2 := by
      rw [split, bytes]
      simp
    have inside := within behind more
    have fits : (head ++ seen).length + width (b :: rest) ≤ source.length - c.rest.length := by
      rw [← List.append_assoc, List.length_append] at inside
      exact inside.le
    obtain ⟨moved, unescaped⟩ := quoted.piece split fits plain high counts
    obtain ⟨inside, rests, done⟩ := ih quoted behind unescaped moved
    exact ⟨(uncons b rest).1.bytes ++ inside, by rw [bytes, rests, List.append_assoc],
      by simpa using done⟩

/-! ### What is skipped and what is taken -/

/-- Whatever is skipped is passed byte by byte. -/
theorem skipTrivia_moves {opened : Option Position} {p : Position} {bytes : Bytes} {c : Cursor}
    (skipped : skipTrivia opened p bytes = .ok c) :
    ∃ gap, bytes = gap ++ c.rest ∧ c.position = gap.foldl Position.next p := by
  fun_induction skipTrivia opened p bytes with
  | case1 | case4 | case8 =>
    obtain rfl := Except.ok.inj skipped
    exact ⟨[], rfl, rfl⟩
  | case2 => simp at skipped
  | case3 p b _ ih | case5 _ p b ih | case6 p b _ _ _ ih | case10 _ p b _ _ _ ih =>
    obtain ⟨gap, split, moved⟩ := ih skipped
    exact ⟨b :: gap, by rw [split, List.cons_append], moved⟩
  | case7 p b c rest noSpace pair ih | case9 opened p b c rest pair ih =>
    obtain ⟨gap, split, moved⟩ := ih skipped
    exact ⟨b :: c :: gap, by rw [split, List.cons_append, List.cons_append], moved⟩

section

variable {extra : Nat → Nat} {p : Position} {before bytes taken : Bytes} {t : Token}
  {warnings : List Diagnostic} {c : Cursor}

/-- A gap that costs the other bytes of each of its characters. -/
theorem Skips.counts {gap rest : Bytes} {stop : Position}
    (skips : Skips none p bytes (.ok ⟨stop, rest⟩) gap stop rest)
    (skipped : skipTrivia none p bytes = .ok ⟨stop, rest⟩)
    (counts : p.Counts extra before bytes)
    (costs : ∀ front b back, gap = front ++ b :: back →
      extra (before ++ front).length = width (b :: (back ++ rest)) - 1) :
    stop.Counts extra (before ++ gap) rest := by
  obtain ⟨run, split, moved⟩ := skipTrivia_moves skipped
  obtain rfl : gap = run := List.append_cancel_right (skips.split.symm.trans split)
  obtain rfl : stop = gap.foldl Position.next p := moved
  rw [skips.split] at counts
  exact counts.bytes costs

/-- The column behind a token, and that it ends with a whole character. -/
structure Passes (extra : Nat → Nat) (before taken : Bytes) (c : Cursor) : Prop where
  counts : c.position.Counts extra (before ++ taken) c.rest
  whole : Whole (lastLine (before ++ taken))

theorem passes_of_closes {quote : UInt8} {rest : Bytes} (opened : isQuote quote = true)
    (closes : Closes quote (p.next quote) rest c) (cut : quote :: rest = taken ++ c.rest)
    (counts : p.Counts extra before (quote :: rest)) (opening : extra before.length = 0)
    (quoted : Quoted extra (before ++ quote :: rest) (before ++ [quote])
      ((before ++ quote :: rest).length - c.rest.length)) : Passes extra before taken c := by
  obtain ⟨ascii, -⟩ := plain_of_isQuote opened
  have moved := counts.next (by rw [opening, count_ascii ascii, Nat.add_zero])
  have start : before ++ quote :: rest = before ++ [quote] ++ [] ++ rest := by simp
  obtain ⟨inside, split, done⟩ := readString_counts ascii quoted start not_escaped_nil
    (by simpa using moved) closes
  -- The closing quote is ASCII, and so the literal ends with a whole character.
  obtain ⟨front, closed, -⟩ := readString_inside ascii closes
  obtain rfl : inside = front ++ [quote] :=
    List.append_cancel_right (split.symm.trans (by rw [closed]; simp))
  obtain rfl : taken = quote :: (front ++ [quote]) :=
    List.append_cancel_right (cut.symm.trans (by rw [closed]; simp))
  refine ⟨by simpa using done, ?_⟩
  rw [← List.cons_append, ← List.append_assoc]
  exact whole_lastLine_concat ascii _

theorem passes_of_readNumber (read : readNumber p bytes = .token t warnings c)
    (cut : bytes = taken ++ c.rest) (counts : p.Counts extra before bytes)
    (whole : Whole (lastLine before))
    (free : ∀ i, before.length ≤ i → i < before.length + taken.length → extra i = 0) :
    Passes extra before taken c := by
  simp only [readNumber, Step.token.injEq] at read
  obtain ⟨-, -, rfl⟩ := read
  obtain rfl : taken = bytes.takeWhile isRun :=
    List.append_cancel_right (cut.symm.trans List.takeWhile_append_dropWhile.symm)
  have inRun : ∀ b ∈ bytes.takeWhile isRun, isRun b = true := fun b => List.mem_takeWhile_imp
  -- Digits and points are single bytes, so there are as many characters as bytes.
  have ascii : ∀ b ∈ bytes.takeWhile isRun, b < 0x80 := by
    intro b member
    have range := isRun_range (inRun b member)
    rw [UInt8.lt_iff_toNat_lt]
    change b.toNat < 128
    omega
  have noFeed := feed_notMem_run bytes
  rw [cut] at counts
  refine ⟨counts.forward noFeed (count_ascii_run ascii _) free, ?_⟩
  rw [lastLine_append before noFeed]
  exact whole.append (whole_of_ascii_run ascii)

theorem passes_of_readWord {lead : UInt8} {tail : Bytes}
    (read : readWord p (lead :: tail) = .token t warnings c)
    (cut : lead :: tail = taken ++ c.rest) (counts : p.Counts extra before (lead :: tail))
    (whole : Whole (lastLine before))
    (free : ∀ i, before.length ≤ i → i < before.length + taken.length → extra i = 0) :
    Passes extra before taken c := by
  simp only [readWord, Step.token.injEq] at read
  obtain ⟨-, -, rfl⟩ := read
  obtain rfl : taken = (Utf8.span isNamePart (lead :: tail)).1 :=
    List.append_cancel_right (cut.symm.trans (Utf8.span_bytes isNamePart (lead :: tail)).1)
  have noFeed := feed_notMem_word (lead :: tail)
  -- A stray byte is no part of a name, so the word does not end inside of a character.
  have word : Whole (Utf8.span isNamePart (lead :: tail)).1 :=
    whole_span (by decide +kernel) _
  rw [cut] at counts
  refine ⟨counts.forward noFeed (word _) free, ?_⟩
  rw [lastLine_append before noFeed]
  exact whole.append word

/-- Behind a token the column has grown by its characters, if they cost nothing or as much as those
of a string do. -/
theorem Takes.passes (takes : Takes p bytes t c taken)
    (read : readToken ⟨p, bytes⟩ = .token t warnings c) (counts : p.Counts extra before bytes)
    (whole : Whole (lastLine before)) (opening : extra before.length = 0)
    (plain : t.kind ≠ .string →
      ∀ i, before.length ≤ i → i < before.length + taken.length → extra i = 0)
    (quoted : t.kind = .string → ∀ quote, Quoted extra (before ++ bytes) (before ++ [quote])
      ((before ++ bytes).length - c.rest.length)) : Passes extra before taken c := by
  have cut := takes.split
  -- Each way to read has its own law of columns.
  cases reading_of_readToken read with
  | quoted quote rest c opened closes =>
    exact passes_of_closes opened closes cut counts opening (quoted rfl quote)
  | number b rest t warnings c _ _ kind read =>
    refine passes_of_readNumber read cut counts whole (plain fun string => ?_)
    simp [string, Kind.isNumeric] at kind
  | word lead tail t warnings c _ _ _ kind read =>
    exact passes_of_readWord read cut counts whole (plain (kind ▸ ofWord_ne_string t.lexeme))
  | symbol symbol rest =>
    obtain rfl : taken = [symbol.byte] := List.append_cancel_right (cut.symm.trans rfl)
    have ascii := (class_of_symbol symbol).2.2.2.1
    exact ⟨counts.next (by rw [opening, count_ascii ascii, Nat.add_zero]),
      whole_lastLine_concat ascii _⟩

end

end Scan

end Tide
