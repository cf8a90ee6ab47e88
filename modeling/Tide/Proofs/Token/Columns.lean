import Tide.Proofs.Token.Advance

/-!
# Columns

The column of a token against the characters in front of it on its line. The two agree unless a
character of several bytes was passed byte by byte on the way: in a comment, or behind an escaping
backslash of a string. Each such character moves all that follows it on the line to the right by as
many columns as it has further bytes.

## Proof strategy

Which bytes have an extra is said by the tokens of the whole source, those that a run has left
behind it and those that it will come to. A step stands between the two, so every byte it passes is
either in no token, or in the token that it reads and in no other.
-/
namespace Tide

open Utf8 Bytes

/-- The token was cut out of bytes of which this is one. -/
def Token.Holds (t : Token) (i : Nat) : Prop := t.span.start.offset ≤ i ∧ i < t.span.stop.offset

/-- The byte is passed for itself: it stands in no token, or behind an escaping backslash of a
string. -/
def Bytewise (source : Bytes) (tokens : List Token) (i : Nat) : Prop :=
  (∀ t ∈ tokens, ¬ t.Holds i) ∨ ∃ t ∈ tokens, t.kind = .string ∧ t.Holds i ∧
    Escaped (Bytes.slice source (t.span.start.offset + 1) i)

/-- The columns that a byte takes up too many. -/
noncomputable def surplus (source : Bytes) (tokens : List Token) (i : Nat) : Nat :=
  open Classical in if Bytewise source tokens i then width (source.drop i) - 1 else 0

theorem surplus_of_bytewise {source : Bytes} {tokens : List Token} {i : Nat}
    (bytewise : Bytewise source tokens i) :
    surplus source tokens i = width (source.drop i) - 1 := if_pos bytewise

theorem surplus_of_not_bytewise {source : Bytes} {tokens : List Token} {i : Nat}
    (other : ¬ Bytewise source tokens i) : surplus source tokens i = 0 := if_neg other

theorem surplus_eq_zero_iff {source : Bytes} {tokens : List Token} {i : Nat} :
    surplus source tokens i = 0 ↔ (Bytewise source tokens i → width (source.drop i) ≤ 1) := by
  unfold surplus
  split
  next bytewise => simp only [bytewise, forall_const, Nat.sub_eq_zero_iff_le]
  next other => simp only [other, false_imp_iff]

theorem Scanned.Covers.start_le {source : Bytes} {start : Int} {scanned : Scanned}
    (covers : scanned.Covers source start) :
    ∀ t ∈ scanned.tokens, start ≤ t.span.start.offset := by
  unfold Scanned.Covers at covers
  split at covers
  next =>
    obtain ⟨tokens, last, split, ends, tiles⟩ := covers
    intro t member
    rw [split, List.mem_append, List.mem_singleton] at member
    rcases member with member | rfl
    · exact tiles.start_le t member
    · have ordered := tiles.le
      rwa [ends.marks.offset]
  next => exact covers.start_le

namespace Scan

/-! ### What a byte costs -/

section

variable {source : Bytes} {tokens done later : List Token} {t : Token}

/-- Between two tokens all bytes are passed for themselves. -/
theorem surplus_of_gap {before gap rest : Bytes} (split : source = before ++ gap ++ rest)
    (all : tokens = done ++ later) (past : ∀ u ∈ done, u.span.stop.offset ≤ before.length)
    (ahead : ∀ u ∈ later, (before ++ gap).length ≤ u.span.start.offset)
    (front : Bytes) (b : UInt8) (back : Bytes) (inside : gap = front ++ b :: back) :
    surplus source tokens (before ++ front).length = width (b :: (back ++ rest)) - 1 := by
  have stands : source = before ++ front ++ b :: (back ++ rest) := by simp [split, inside]
  have outside : Bytewise source tokens (before ++ front).length := by
    refine .inl fun u member holds => ?_
    rw [all, List.mem_append] at member
    unfold Token.Holds at holds
    simp only [inside, List.length_append, List.length_cons] at *
    rcases member with early | late
    · have := past u early
      omega
    · have := ahead u late
      omega
  rw [surplus_of_bytewise outside, stands, List.drop_left]

variable (all : tokens = done ++ t :: later)
  (past : ∀ u ∈ done, u.span.stop.offset ≤ t.span.start.offset)
  (ahead : ∀ u ∈ later, t.span.stop.offset ≤ u.span.start.offset)

include all past ahead

theorem bytewise_of_holds {i : Nat} (holds : t.Holds i) : Bytewise source tokens i ↔
    t.kind = .string ∧ Escaped (Bytes.slice source (t.span.start.offset + 1) i) := by
  have member : t ∈ tokens := by simp [all]
  constructor
  · rintro (outside | ⟨u, inside, string, holds', escaped⟩)
    · exact absurd holds (outside t member)
    -- All other tokens stop in front of this one or start behind it.
    · obtain rfl : u = t := by
        rw [all, List.mem_append, List.mem_cons] at inside
        unfold Token.Holds at holds holds'
        rcases inside with before | rfl | behind
        · have := past u before
          omega
        · rfl
        · have := ahead u behind
          omega
      exact ⟨string, escaped⟩
  · rintro ⟨string, escaped⟩
    exact .inr ⟨t, member, string, holds, escaped⟩

theorem surplus_of_plain (plain : t.kind ≠ .string) {i : Nat} (holds : t.Holds i) :
    surplus source tokens i = 0 :=
  surplus_of_not_bytewise fun bytewise =>
    plain ((bytewise_of_holds all past ahead holds).mp bytewise).1

theorem surplus_of_start {start : Nat} (place : t.span.start.offset = start)
    (filled : t.span.start.offset < t.span.stop.offset) : surplus source tokens start = 0 := by
  refine surplus_of_not_bytewise fun bytewise => ?_
  have holds : t.Holds start := ⟨place.le, place ▸ filled⟩
  obtain ⟨-, escaped⟩ := (bytewise_of_holds all past ahead holds).mp bytewise
  -- Nothing of the token stands in front of its first byte, so no backslash does.
  have nothing : Bytes.slice source (t.span.start.offset + 1) start = [] := by
    rw [place]
    exact List.drop_eq_nil_of_le (by simp)
  exact not_escaped_nil (nothing ▸ escaped)

/-- In a string the bytes behind escaping backslashes are passed for themselves. -/
theorem quoted_of_string (string : t.kind = .string) {before : Bytes} {quote : UInt8} {stop : Nat}
    (starts : t.span.start.offset = before.length) (stops : t.span.stop.offset = stop) :
    Quoted (surplus source tokens) source (before ++ [quote]) stop := by
  intro seen rest split inside
  have holds : t.Holds (before ++ [quote] ++ seen).length := by
    unfold Token.Holds
    simp only [List.length_append] at *
    omega
  have slice : Bytes.slice source (t.span.start.offset + 1) (before ++ [quote] ++ seen).length =
      seen := by
    have opened : t.span.start.offset + 1 = (before ++ [quote]).length := by simp [starts]
    rw [opened, split, Bytes.slice_append]
  have bytewise : Bytewise source tokens _ ↔ _ := bytewise_of_holds all past ahead holds
  rw [slice] at bytewise
  refine ⟨fun escaped => ?_, fun plain => ?_⟩
  · rw [surplus_of_bytewise (bytewise.mpr ⟨string, escaped⟩), split, List.drop_left]
  · exact surplus_of_not_bytewise fun found => plain (bytewise.mp found).2

end

/-! ### Where tokens start -/

/-- The column of a place counts the characters in front of it on the line, and what the bytes there
take up too many. -/
def Columned (source : Bytes) (tokens : List Token) (p : Position) : Prop :=
  ∃ before rest, source = before ++ rest ∧ p.offset = before.length ∧
    p.column = 1 + count (lastLine before) +
      (∑ i ∈ Finset.Ico (before.length - (lastLine before).length) before.length,
        surplus source tokens i : Nat)

/-- How far a scan has come in a source of which all tokens are known. -/
structure Reached (source : Bytes) (tokens : List Token) (before : Bytes) (c : Cursor) : Prop where
  split : source = before ++ c.rest
  marks : c.position.Marks before
  whole : Whole (lastLine before)
  counts : c.position.Counts (surplus source tokens) before c.rest

namespace Reached

variable {source before : Bytes} {tokens done later : List Token} {c : Cursor}

theorem columned (reached : Reached source tokens before c) :
    Columned source tokens c.position := by
  obtain ⟨split, marks, whole, counts⟩ := reached
  refine ⟨before, c.rest, split, marks.offset, ?_⟩
  unfold Position.Counts at counts
  rw [whole] at counts
  push_cast at counts ⊢
  omega

/-- What is skipped lies between the tokens that are done and those that come later. -/
theorem skip (reached : Reached source tokens before c) {gap rest : Bytes} {stop : Position}
    (skips : Skips none c.position c.rest (.ok ⟨stop, rest⟩) gap stop rest)
    (skipped : skipTrivia none c.position c.rest = .ok ⟨stop, rest⟩)
    (all : tokens = done ++ later) (past : ∀ u ∈ done, u.span.stop.offset ≤ before.length)
    (ahead : ∀ u ∈ later, (before ++ gap).length ≤ u.span.start.offset) :
    Reached source tokens (before ++ gap) ⟨stop, rest⟩ := by
  have split : source = before ++ gap ++ rest := by
    rw [reached.split, skips.split, List.append_assoc]
  exact {
    split := split
    marks := skips.marks before reached.marks
    whole := skips.complete.whole reached.whole
    counts := skips.counts skipped reached.counts (surplus_of_gap split all past ahead) }

theorem take {t : Token} {warnings : List Diagnostic} {behind : Cursor} {taken : Bytes}
    (reached : Reached source tokens before c) (takes : Takes c.position c.rest t behind taken)
    (read : readToken c = .token t warnings behind) (all : tokens = done ++ t :: later)
    (past : ∀ u ∈ done, u.span.stop.offset ≤ t.span.start.offset)
    (ahead : ∀ u ∈ later, t.span.stop.offset ≤ u.span.start.offset) :
    Reached source tokens (before ++ taken) behind := by
  have split : source = before ++ taken ++ behind.rest := by
    rw [reached.split, takes.split, List.append_assoc]
  have marks := takes.marks before reached.marks
  have starts : t.span.start.offset = before.length := by
    rw [takes.span]
    exact reached.marks.offset
  have stops : t.span.stop.offset = (before ++ taken).length := by
    rw [takes.span]
    exact marks.offset
  have filled : t.span.start.offset < t.span.stop.offset := by
    have some := List.length_pos_of_ne_nil takes.filled
    rw [starts, stops, List.length_append]
    omega
  -- Which bytes cost extra is known from the tokens: none of this one unless it is a string.
  have passes : Passes (surplus source tokens) before taken behind := by
    refine takes.passes read reached.counts reached.whole
      (surplus_of_start all past ahead starts filled) (fun plain i low high => ?_)
      (fun string quote => ?_)
    · refine surplus_of_plain all past ahead plain ⟨?_, ?_⟩
      · rw [starts]
        exact_mod_cast low
      · rw [stops, List.length_append]
        exact_mod_cast high
    · rw [← reached.split]
      refine quoted_of_string all past ahead string starts ?_
      simp only [stops, split, List.length_append, Nat.add_sub_cancel]
  exact ⟨split, marks, passes.whole, passes.counts⟩

end Reached

/-- A step that does not fail in a comment skips what stands in front of a token and reads it. -/
theorem next_reads {cursor : Cursor} (noFault : ∀ fault, next cursor ≠ .failed fault []) :
    ∃ gap stop rest, Skips none cursor.position cursor.rest (.ok ⟨stop, rest⟩) gap stop rest ∧
      skipTrivia none cursor.position cursor.rest = .ok ⟨stop, rest⟩ ∧
      next cursor = readToken ⟨stop, rest⟩ := by
  obtain ⟨gap, stop, rest, skips⟩ := skipTrivia_none cursor.position cursor.rest
  have stops := skips.stops
  unfold next at noFault ⊢
  split at noFault
  next => exact absurd rfl (noFault _)
  next c skipped =>
    rw [skipped] at stops skips
    obtain rfl : c = ⟨stop, rest⟩ := stops
    exact ⟨gap, stop, rest, skips, skipped, rfl⟩

theorem columned_of_run {source before : Bytes} {tokens done : List Token} {cursor : Cursor}
    (reached : Reached source tokens before cursor) (all : tokens = done ++ (run cursor).tokens)
    (past : ∀ u ∈ done, u.span.stop.offset ≤ before.length) :
    ∀ t ∈ (run cursor).tokens, Columned source tokens t.span.start := by
  -- Along the run tokens move from those to come to those that are done.
  induction cursor using run.induct generalizing before done with
  | case1 cursor last read =>
    obtain ⟨gap, stop, rest, skips, skipped, reads⟩ := @next_reads cursor (by simp [read])
    obtain ⟨-, rfl⟩ := rest_of_finished (reads.symm.trans read)
    have stands := skips.marks before reached.marks
    rw [run_finished read] at all ⊢
    have here := reached.skip skips skipped all past (by simp [stands.offset])
    simpa using here.columned
  | case2 cursor fault warnings read =>
    rw [run_failed read]
    simp
  | case3 cursor t warnings c read ih =>
    obtain ⟨gap, stop, rest, skips, skipped, reads⟩ := @next_reads cursor (by simp [read])
    have read' := reads.symm.trans read
    obtain ⟨taken, takes⟩ := takes_of_readToken read'
    have stands := skips.marks before reached.marks
    have behind := takes.marks _ stands
    obtain ⟨kind, lexeme, span⟩ := t
    obtain rfl : span = ⟨stop, c.position⟩ := takes.span
    rw [run_token read] at all ⊢
    have whole : source = before ++ gap ++ taken ++ c.rest := by
      rw [reached.split, skips.split, takes.split]
      simp
    -- The tokens that are still to come do not reach back behind this one.
    have ahead : ∀ u ∈ (run c).tokens, c.position.offset ≤ u.span.start.offset := by
      rw [behind.offset]
      exact (covers_of_run whole behind).start_le
    have further : stop.offset ≤ c.position.offset := by
      simp only [stands.offset, behind.offset, List.length_append]
      omega
    have here := reached.skip skips skipped all past <| by
      rw [← stands.offset]
      exact List.forall_mem_cons.mpr ⟨le_rfl, fun u member => further.trans (ahead u member)⟩
    have past' : ∀ u ∈ done, u.span.stop.offset ≤ stop.offset := fun u member =>
      (past u member).trans (by rw [stands.offset, List.length_append]; omega)
    refine List.forall_mem_cons.mpr ⟨here.columned, ?_⟩
    refine ih (here.take takes read' all past' ahead) (by rw [all, List.append_cons]) ?_
    rw [← behind.offset]
    exact List.forall_mem_append.mpr ⟨fun u member => (past' u member).trans further, by simp⟩

end Scan

open Scan

/-- Every token starts at the characters in front of it on its line and the columns they take up too
many. -/
theorem columned_start {source : Bytes} {t : Token} (member : t ∈ (scan source).tokens) :
    Columned source (scan source).tokens t.span.start := by
  have start : Reached source (scan source).tokens [] ⟨.first, source⟩ :=
    ⟨rfl, .first, whole_nil, .first source⟩
  have all : (scan source).tokens = [] ++ (run ⟨.first, source⟩).tokens := rfl
  exact columned_of_run start all (by simp) t member

/-- The byte stands in front of the token and on its line. -/
def Token.Follows (source : Bytes) (t : Token) (i : Nat) : Prop :=
  i < t.span.start.offset ∧ '\n'.toUInt8 ∉ Bytes.slice source i t.span.start.offset

/-- The column of a token is that of its first character, unless the line has a character of more
than one byte in front of the token that was passed byte by byte: one that stands in a comment, or
behind an escaping backslash of a string. -/
theorem column_counts_characters_iff {source : Bytes} {t : Token}
    (member : t ∈ (scan source).tokens) :
    t.span.start.column = 1 + count (lastLine (source.take t.span.start.offset.toNat)) ↔
      ∀ i, t.Follows source i → Bytewise source (scan source).tokens i →
        width (source.drop i) ≤ 1 := by
  obtain ⟨before, rest, split, place, column⟩ := columned_start member
  have front : source.take before.length = before := by rw [split, List.take_left]
  have follows (i : Nat) : t.Follows source i ↔
      i ∈ Finset.Ico (before.length - (lastLine before).length) before.length := by
    rw [mem_Ico_lastLine, Token.Follows, place, Nat.cast_lt, Bytes.slice, Int.toNat_natCast,
      Int.toNat_natCast, front]
  have exactly : t.span.start.column = 1 + count (lastLine before) ↔
      ∑ i ∈ Finset.Ico (before.length - (lastLine before).length) before.length,
        surplus source (scan source).tokens i = 0 := by
    omega
  rw [place, Int.toNat_natCast, front, exactly, Finset.sum_eq_zero_iff]
  refine forall_congr' fun i => ?_
  rw [follows, surplus_eq_zero_iff]

/-- A word of two bytes is one character, also when a comment stands behind it. -/
theorem column_counts_characters_word :
    let source := utf8 "é /* */ x"
    ∃ t ∈ (scan source).tokens, t.lexeme = utf8 "x" ∧ t.span.start.column = 9 ∧
      ∀ i, t.Follows source i → Bytewise source (scan source).tokens i →
        width (source.drop i) ≤ 1 := by
  let x : Token := ⟨.ident, utf8 "x", ⟨⟨9, 1, 9⟩, ⟨10, 1, 10⟩⟩⟩
  obtain ⟨second, line, eight⟩ : (scan (utf8 "é /* */ x")).tokens[1]? = some x ∧
      lastLine ((utf8 "é /* */ x").take 9) = utf8 "é /* */ " ∧ count (utf8 "é /* */ ") = 8 :=
    ⟨by cbv, by decide +kernel, by cbv⟩
  have member := List.mem_of_getElem? second
  refine ⟨x, member, rfl, rfl, (column_counts_characters_iff member).mp ?_⟩
  change (9 : Int) = 1 + count (lastLine ((utf8 "é /* */ x").take 9))
  rw [line, eight]
  rfl

/-- A comment passes the two bytes of its only character for themselves. -/
theorem column_counts_bytes_of_comment :
    let source := utf8 "/*é*/ x"
    (scan source).fault = none ∧ ∃ t ∈ (scan source).tokens, t.span.start.column = 8 ∧
      1 + count (lastLine (source.take t.span.start.offset.toNat)) = 7 := by
  let x : Token := ⟨.ident, utf8 "x", ⟨⟨7, 1, 8⟩, ⟨8, 1, 9⟩⟩⟩
  obtain ⟨fault, first, line, six⟩ : (scan (utf8 "/*é*/ x")).fault = none ∧
      (scan (utf8 "/*é*/ x")).tokens[0]? = some x ∧
      lastLine ((utf8 "/*é*/ x").take 7) = utf8 "/*é*/ " ∧ count (utf8 "/*é*/ ") = 6 :=
    ⟨by cbv, by cbv, by decide +kernel, by cbv⟩
  refine ⟨fault, x, List.mem_of_getElem? first, rfl, ?_⟩
  change 1 + count (lastLine ((utf8 "/*é*/ x").take 7)) = 7
  rw [line, six]

end Tide
