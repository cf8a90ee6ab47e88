import Mathlib
import Tide.Proofs.Grammar.Seen
import Tide.Proofs.Grammar.Transport
import Tide.Proofs.Token.Tiling
import Tide.Proofs.Tree.Spans

/-!
# Tokens in order

The tokens of a source that scans stand one behind the other, and the last one is an end. A parser
takes tokens from the front, skips separators, and joins two tokens that touch. So what is left
stays in order, behind the token that was taken last; and since only an end stops it, that end is
never taken.
-/
namespace Tide

theorem Span.Fits.join {length : Int} {left right : Span} (first : left.Fits length)
    (second : right.Fits length) : (left.join right).Fits length := by
  unfold Span.Fits at *
  rw [Span.offset_start_join, Span.offset_stop_join]
  omega

/-- The tokens stand in order, between two offsets. -/
inductive Token.Ordered (stop : Int) : Int → List Token → Prop where
  | nil {start : Int} (ordered : start ≤ stop) : Ordered stop start []
  | cons {start : Int} {t : Token} {tokens : List Token} (behind : start ≤ t.span.start.offset)
      (proper : t.span.start.offset ≤ t.span.stop.offset)
      (rest : Ordered stop t.span.stop.offset tokens) : Ordered stop start (t :: tokens)

namespace Token.Ordered

variable {start stop : Int} {tokens : List Token}

theorem le (ordered : Ordered stop start tokens) : start ≤ stop := by
  induction ordered with
  | nil ordered => exact ordered
  | cons behind proper rest ih => omega

end Token.Ordered

namespace Stream

/-- The tokens that are left stand in order behind the one that was taken last. -/
structure Ordered (length : Int) (s : Stream) : Prop where
  nonneg : 0 ≤ s.behind.offset
  tokens : Token.Ordered length s.behind.offset s.rest

namespace Ordered

variable {length : Int} {s : Stream}

/-- The next token stands behind the last one, and taking it moves to its end. -/
theorem take (ordered : s.Ordered length) (inside : s.head.kind ≠ .eof) :
    s.behind.offset ≤ s.head.span.start.offset ∧
      s.head.span.start.offset ≤ s.head.span.stop.offset ∧
      s.head.span.stop.offset = s.tail.behind.offset := by
  obtain ⟨rest, behind⟩ := s
  obtain ⟨-, tokens⟩ := ordered
  cases tokens with
  | nil => exact absurd rfl inside
  | cons behind proper rest => exact ⟨behind, proper, rfl⟩

/-- The next token stands in the source. At the end of a list that is an end at no place. -/
theorem head_fits (ordered : s.Ordered length) : s.head.span.Fits length := by
  obtain ⟨rest, behind⟩ := s
  obtain ⟨nonneg, tokens⟩ := ordered
  cases tokens with
  | nil ordered => exact ⟨le_rfl, le_rfl, nonneg.trans ordered⟩
  | cons behind proper rest => exact ⟨nonneg.trans behind, proper, rest.le⟩

theorem behind_fits (ordered : s.Ordered length) : s.behind.offset ≤ length := ordered.tokens.le

theorem head_le_behind (ordered : s.Ordered length) :
    s.head.span.start.offset ≤ s.tail.behind.offset := by
  obtain ⟨rest, behind⟩ := s
  obtain ⟨nonneg, tokens⟩ := ordered
  cases tokens with
  | nil => exact nonneg
  | cons behind proper rest => exact proper

theorem le_tail (ordered : s.Ordered length) : s.behind.offset ≤ s.tail.behind.offset := by
  obtain ⟨rest, behind⟩ := s
  obtain ⟨nonneg, tokens⟩ := ordered
  cases tokens with
  | nil => exact le_rfl
  | cons behind proper rest => exact behind.trans proper

theorem tail (ordered : s.Ordered length) : s.tail.Ordered length := by
  obtain ⟨rest, behind⟩ := s
  obtain ⟨nonneg, tokens⟩ := ordered
  cases tokens with
  | nil ordered => exact ⟨nonneg, .nil ordered⟩
  | cons behind proper rest => exact ⟨nonneg.trans (behind.trans proper), rest⟩

theorem fuse (ordered : s.Ordered length) (wanted : List Fused) :
    (s.fuse wanted).Ordered length ∧ (s.fuse wanted).behind = s.behind := by
  obtain same | ⟨first, second, rest, operator, split, -, -, same⟩ := s.fuse_cases wanted
  · rw [same]
    exact ⟨ordered, rfl⟩
  · have tokens := ordered.tokens
    rw [split] at tokens
    rw [same]
    cases tokens with
    | cons stands proper tokens =>
      cases tokens with
      | cons stands' proper' tokens =>
        -- The joined token begins where the first one does and ends where the second one does.
        refine ⟨⟨ordered.nonneg, .cons ?_ ?_ ?_⟩, rfl⟩ <;>
          simp only [Span.offset_start_join, Span.offset_stop_join]
        · omega
        · omega
        · rw [max_eq_right (by omega)]
          exact tokens

theorem takes {n : Nat} {t : Stream} (ordered : s.Ordered length) (takes : s.Takes n t) :
    t.Ordered length ∧ s.behind.offset ≤ t.behind.offset :=
  takes.keeps (P := fun u => u.Ordered length ∧ s.behind.offset ≤ u.behind.offset)
    (fun _ _ kept => ⟨kept.1.tail, kept.2.trans kept.1.le_tail⟩)
    (fun wanted _ kept => ⟨(kept.1.fuse wanted).1, by rw [(kept.1.fuse wanted).2]; exact kept.2⟩)
    ⟨ordered, le_rfl⟩

theorem skip (ordered : s.Ordered length) :
    s.skip.Ordered length ∧ s.behind.offset ≤ s.skip.behind.offset :=
  ordered.takes s.takes_skip

theorem prepare (ordered : s.Ordered length) (level : Grammar.Level) :
    (level.prepare s).Ordered length ∧ (level.prepare s).behind = s.behind := by
  cases level with
  | comparison => exact ordered.fuse _
  | _ => exact ⟨ordered, rfl⟩

end Ordered

/-- The last token is an end. -/
def Ended (s : Stream) : Prop := ∃ tokens last, s.rest = tokens ++ [last] ∧ last.kind = .eof

namespace Ended

variable {s : Stream}

theorem tail (ended : s.Ended) (inside : s.head.kind ≠ .eof) : s.tail.Ended := by
  obtain ⟨rest, behind⟩ := s
  obtain ⟨tokens, last, rfl, kind⟩ := ended
  cases tokens with
  | nil => exact absurd kind inside
  | cons first tokens => exact ⟨tokens, last, rfl, kind⟩

theorem fuse (ended : s.Ended) (wanted : List Fused) : (s.fuse wanted).Ended := by
  obtain same | ⟨first, second, rest, operator, tokens, one, two, same⟩ := s.fuse_cases wanted
  · rwa [same]
  · have later := (ended.tail (by simp [head, tokens, one])).tail
      (by simp [head, Stream.tail, tokens, two])
    obtain ⟨more, last, split, kind⟩ := later
    have rest : rest = more ++ [last] := by simpa [Stream.tail, tokens] using split
    rw [same, rest]
    exact ⟨_ :: more, last, rfl, kind⟩

end Ended
end Stream

namespace Grammar

variable {shape : Shape} {goal : Goal shape} {s t : Stream} {result : shape.Result}

theorem Reads.ordered {length : Int} (read : Reads goal s result t) (ordered : s.Ordered length) :
    t.Ordered length :=
  (ordered.takes read.takes).1

theorem Reads.ended (read : Reads goal s result t) (ended : s.Ended) : t.Ended :=
  read.takes.keeps (fun _ inside ended => ended.tail inside)
    (fun wanted _ ended => ended.fuse wanted) ended

end Grammar

/-! ### The tokens of a source -/

theorem Tiles.ordered {source : Bytes} {start stop : Int} {tokens : List Token}
    (tiles : Tiles source start tokens stop) {last : Token} (place : last.span.start.offset = stop)
    (empty : last.span.stop = last.span.start) : Token.Ordered stop start (tokens ++ [last]) := by
  induction tiles with
  | gap ordered inside trivia =>
    refine .cons (place ▸ ordered) (by rw [empty]) (.nil ?_)
    rw [empty, place]
  | token ordered trivia cut rest ih => exact .cons ordered cut.filled.le (ih place)

theorem ordered_of_scan {source : Bytes} (scans : (scan source).fault = none) :
    (Stream.ofTokens (scan source).tokens).Ordered source.length ∧
      (Stream.ofTokens (scan source).tokens).Ended := by
  have covers := covers_scan source
  rw [Scanned.Covers, scans] at covers
  obtain ⟨tokens, last, split, ends, tiles⟩ := covers
  have ordered := tiles.ordered ends.marks.offset ends.empty
  have kind : last.kind = .eof := congrArg Word.kind ends.word
  rw [split]
  refine ⟨?_, tokens, last, rfl, kind⟩
  -- At first the stream stands where its first token begins.
  cases whole : tokens ++ [last] with
  | nil => simp at whole
  | cons first rest =>
    rw [whole] at ordered
    cases ordered with
    | cons behind proper rest => exact ⟨behind, .cons le_rfl proper rest⟩

end Tide
