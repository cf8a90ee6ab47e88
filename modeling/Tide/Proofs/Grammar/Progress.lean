import Tide.Proofs.Grammar.Rules

/-!
# Parsing takes tokens

All that a rule does to the stream is to take tokens, none of which is an end, and to join two of
them to a long operator. Skipping separators is taking them. So no token is given back, every goal
that stands for something visible takes at least one, and what taking and joining keep is kept by
all that is read.
-/
namespace Tide

theorem Grammar.parts_of_fuse {first second : Kind} {operator : Fused}
    (spelled : Kind.fuse first second = some operator) :
    first = .symbol operator.parts.1 ∧ second = .symbol operator.parts.2 := by
  unfold Kind.fuse at spelled
  split at spelled
  next first second =>
    have parts : operator.parts = (first, second) := by simpa using List.find?_some spelled
    simp [parts]
  next => simp at spelled

namespace Stream

/-! ### Moves -/

/-- Joining changes nothing, or it puts one token in the place of the two that spell it. -/
theorem fuse_cases (wanted : List Fused) (s : Stream) :
    s.fuse wanted = s ∨ ∃ first second rest operator,
      s.rest = first :: second :: rest ∧ first.kind = .symbol operator.parts.1 ∧
        second.kind = .symbol operator.parts.2 ∧
        s.fuse wanted = { s with rest :=
          ⟨.fused operator, first.lexeme ++ second.lexeme, first.span.join second.span⟩ :: rest } := by
  unfold fuse
  -- The tests for joining, in their order; all but one way out leave the stream as it is.
  split
  next first second rest tokens =>
    split
    next =>
      split
      next operator fused =>
        split
        next =>
          obtain ⟨left, right⟩ := Grammar.parts_of_fuse fused
          exact .inr ⟨first, second, rest, operator, tokens, left, right, rfl⟩
        next => exact .inl rfl
      next => exact .inl rfl
    next => exact .inl rfl
  next => exact .inl rfl

/-- From one stream to another by taking tokens, of which none is an end, and by joining some. The
number counts what is taken. -/
inductive Walks : Nat → Stream → Stream → Prop where
  | stay (s : Stream) : Walks 0 s s
  | take {n : Nat} {s t : Stream} (inside : s.head.kind ≠ .eof) (later : Walks n s.tail t) :
      Walks (n + 1) s t
  | join {n : Nat} {s t : Stream} (wanted : List Fused) (later : Walks n (s.fuse wanted) t) :
      Walks n s t

theorem Walks.trans {n m : Nat} {s t u : Stream} (walks : Walks n s t) (further : Walks m t u) :
    Walks (n + m) s u := by
  induction walks with
  | stay => rwa [Nat.zero_add]
  | @take n _ _ inside _ ih =>
    rw [Nat.add_right_comm]
    exact .take inside (ih further)
  | join wanted _ ih => exact .join wanted (ih further)

theorem walks_skip (s : Stream) : ∃ n, Walks n s s.skip := by
  obtain ⟨tokens, behind⟩ := s
  simp only [skip]
  induction tokens generalizing behind with
  | nil => exact ⟨0, .stay _⟩
  | cons first tokens ih =>
    rw [skipWhile]
    split
    next separator =>
      have kind : first.kind = .symbol .semicolon := by simpa using separator
      obtain ⟨n, walks⟩ := ih first.span.stop
      exact ⟨n + 1, .take (by simp [head, kind]) walks⟩
    next => exact ⟨0, .stay _⟩

/-- Some number of tokens is taken, and not less than this one. -/
def Takes (least : Nat) (s t : Stream) : Prop := ∃ n, least ≤ n ∧ Walks n s t

theorem takes_nothing (s : Stream) : Takes 0 s s := ⟨0, Nat.le_refl 0, .stay s⟩

theorem takes_head {s : Stream} (inside : s.head.kind ≠ .eof) : Takes 1 s s.tail :=
  ⟨1, Nat.le_refl 1, .take inside (.stay _)⟩

theorem takes_skip (s : Stream) : Takes 0 s s.skip := by
  obtain ⟨n, walks⟩ := s.walks_skip
  exact ⟨n, Nat.zero_le n, walks⟩

theorem takes_fuse (s : Stream) (wanted : List Fused) : Takes 0 s (s.fuse wanted) :=
  ⟨0, Nat.le_refl 0, .join wanted (.stay _)⟩

namespace Takes

variable {n m : Nat} {s t u : Stream}

theorem trans (takes : Takes n s t) (further : Takes m t u) : Takes (n + m) s u := by
  obtain ⟨taken, enough, walks⟩ := takes
  obtain ⟨taken', enough', walks'⟩ := further
  exact ⟨taken + taken', Nat.add_le_add enough enough', walks.trans walks'⟩

theorem fewer (takes : Takes n s t) (le : m ≤ n) : Takes m s t := by
  obtain ⟨taken, enough, walks⟩ := takes
  exact ⟨taken, Nat.le_trans le enough, walks⟩

/-- What every move keeps is kept. -/
theorem keeps {P : Stream → Prop} (takes : Takes n s t)
    (tail : ∀ s, s.head.kind ≠ .eof → P s → P s.tail)
    (fuse : ∀ wanted s, P s → P (s.fuse wanted)) (start : P s) : P t := by
  obtain ⟨taken, -, walks⟩ := takes
  induction walks with
  | stay => exact start
  | @take _ s _ inside _ ih => exact ih (tail s inside start)
  | @join _ s _ wanted _ ih => exact ih (fuse wanted s start)

/-- What every token lowers, and joining does not raise, is lowered by as much as is taken. -/
theorem lowers (takes : Takes n s t) (measure : Stream → Nat)
    (tail : ∀ s, s.head.kind ≠ .eof → measure s.tail + 1 = measure s)
    (fuse : ∀ wanted s, measure (s.fuse wanted) ≤ measure s) : measure t + n ≤ measure s := by
  obtain ⟨taken, enough, walks⟩ := takes
  induction walks generalizing n with
  | stay => omega
  | @take taken s _ inside _ ih =>
    have first := tail s inside
    have later := ih (Nat.le_refl taken)
    omega
  | @join _ s _ wanted _ ih => exact Nat.le_trans (ih enough) (fuse wanted s)

end Takes

/-! ### How many tokens are left -/

theorem length_tail_le (s : Stream) : s.tail.rest.length ≤ s.rest.length := by
  obtain ⟨rest, behind⟩ := s
  cases rest <;> simp [tail]

/-- Only behind the last token is there nothing to take, and there the next token is an end. -/
theorem length_tail_of_head (s : Stream) (found : s.head.kind ≠ .eof) :
    s.tail.rest.length + 1 = s.rest.length := by
  obtain ⟨rest, behind⟩ := s
  cases rest with
  | nil => simp [head, Token.missingEnd] at found
  | cons token rest => simp [tail]

theorem length_fuse_le (wanted : List Fused) (s : Stream) :
    (s.fuse wanted).rest.length ≤ s.rest.length := by
  obtain same | ⟨first, second, rest, operator, tokens, -, -, same⟩ := s.fuse_cases wanted
  · simp [same]
  · simp [same, tokens]

theorem Takes.length_le {n : Nat} {s t : Stream} (takes : Takes n s t) :
    t.rest.length + n ≤ s.rest.length :=
  takes.lowers (fun u => u.rest.length) length_tail_of_head length_fuse_le

theorem length_skip_le (s : Stream) : s.skip.rest.length ≤ s.rest.length :=
  (takes_skip s).length_le

end Stream

namespace Grammar

open Tide.Stream

/-- How many tokens a goal takes at least. -/
def Goal.least {shape : Shape} : Goal shape → Nat
  | .statements .. | .alternatives _ | .more .. | .accesses .. | .properties _ => 0
  | .statement _ | .body _ | .branch .. | .choice _ | .ret _ | .chain .. | .simple _
  | .accessed _ | .term _ | .items _ | .list .. | .names | .params => 1

@[simp]
theorem Level.least_operand (level : Level) (place : Place) : (level.operand place).least = 1 := by
  cases level <;> rfl

theorem Level.takes_prepare (level : Level) (s : Stream) : Takes 0 s (level.prepare s) := by
  cases level with
  | comparison => exact takes_fuse s _
  | _ => exact takes_nothing s

theorem Level.length_prepare_le (level : Level) (s : Stream) :
    (level.prepare s).rest.length ≤ s.rest.length :=
  (level.takes_prepare s).length_le

theorem Level.ne_eof_of_isOperator (level : Level) {kind : Kind}
    (sign : level.isOperator kind = true) : kind ≠ .eof := by
  rintro rfl
  cases level <;> cases sign

theorem ne_eof_of_isNumeric {kind : Kind} (numeric : kind.isNumeric = true) : kind ≠ .eof := by
  rintro rfl
  cases numeric

theorem Level.length_tail_of_isOperator {level : Level} {s : Stream}
    (sign : level.isOperator s.head.kind = true) : s.tail.rest.length + 1 = s.rest.length :=
  s.length_tail_of_head (level.ne_eof_of_isOperator sign)

variable {shape : Shape} {goal : Goal shape} {s t : Stream} {result : shape.Result}

/-- Each rule is a sequence of moves, a token or what another rule has read at a time. -/
theorem Reads.takes (read : Reads goal s result t) : Takes goal.least s t := by
  induction read <;> simp only [↓Level.least_operand, Goal.least] at * <;>
    grind [takes_nothing, → takes_head, takes_skip, takes_fuse, Level.takes_prepare,
      → Takes.trans, Takes.fewer, → Level.ne_eof_of_isOperator, → ne_eof_of_isNumeric]

theorem Reads.length_le (read : Reads goal s result t) :
    t.rest.length + goal.least ≤ s.rest.length :=
  read.takes.length_le

end Grammar
end Tide
