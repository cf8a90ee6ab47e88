import Tide.Proofs.Grammar.Progress
import Tide.Proofs.Token.Boundary

/-!
# What is seen of a stream

Some properties look at a few kinds of tokens only: the points, or the brackets. An aspect is such
a view of tokens, blind to separators, to the parts of long operators and to the end. What it sees
of a stream changes only where a token is taken: neither skipping separators nor joining two tokens
shows.
-/
namespace Tide

namespace Grammar

/-- A view of tokens by their kind. -/
structure Aspect (α : Type) where
  view : Kind → List α
  separator : view (.symbol .semicolon) = []
  ended : view .eof = []
  fused (operator : Fused) : view (.fused operator) = []
  parts (operator : Fused) :
    view (.symbol operator.parts.1) = [] ∧ view (.symbol operator.parts.2) = []

namespace Aspect

variable {α : Type} (a : Aspect α) (s : Stream)

/-- What the aspect shows of the tokens that are left. -/
def seen : List α := s.rest.flatMap fun t => a.view t.kind

theorem seen_tail : a.seen s = a.view s.head.kind ++ a.seen s.tail := by
  obtain ⟨rest, behind⟩ := s
  cases rest with
  -- Behind its last token a stream shows an end, which no aspect sees.
  | nil => simp [seen, Stream.head, Stream.tail, Token.missingEnd, a.ended]
  | cons first rest => rfl

@[simp] theorem seen_skip : a.seen s.skip = a.seen s := by
  obtain ⟨rest, behind⟩ := s
  simp only [Stream.skip]
  induction rest generalizing behind with
  | nil => rfl
  | cons first rest ih =>
    rw [Stream.skipWhile]
    split
    next separator =>
      rw [ih]
      simp [seen, of_decide_eq_true separator, a.separator]
    next => rfl

@[simp] theorem seen_fuse (wanted : List Fused) : a.seen (s.fuse wanted) = a.seen s := by
  obtain same | ⟨first, second, rest, operator, tokens, left, right, same⟩ := s.fuse_cases wanted
  · rw [same]
  · rw [same]
    simp [seen, tokens, left, right, a.fused, a.parts operator]

@[simp] theorem seen_prepare (level : Level) : a.seen (level.prepare s) = a.seen s := by
  cases level with
  | comparison => exact a.seen_fuse s _
  | _ => rfl

end Aspect

/-- The symbol that a goal takes at its end without having taken its counterpart. -/
def Goal.closing {shape : Shape} : Goal shape → List Kind
  | .list symbol _ => [.symbol symbol]
  | _ => []

theorem Level.closing_operand (level : Level) (place : Place) :
    (level.operand place).closing = [] := by
  cases level <;> rfl

/-! ### Where a scanned program ends -/

/-- Nothing stands behind an end. -/
def EndsOnce : List Token → Prop
  | [] => True
  | t :: rest => (t.kind = .eof → rest = []) ∧ EndsOnce rest

namespace EndsOnce

variable {s : Stream}

theorem tail (once : EndsOnce s.rest) : EndsOnce s.tail.rest := by
  obtain ⟨rest, behind⟩ := s
  cases rest with
  | nil => trivial
  | cons first rest => exact once.2

theorem fuse (once : EndsOnce s.rest) (wanted : List Fused) : EndsOnce (s.fuse wanted).rest := by
  obtain same | ⟨first, second, rest, operator, tokens, -, -, same⟩ := s.fuse_cases wanted
  · rwa [same]
  · rw [tokens] at once
    rw [same]
    exact ⟨by simp, once.2.2⟩

/-- At an end nothing is left to see. -/
theorem seen_eq_nil {α : Type} (once : EndsOnce s.rest) (a : Aspect α)
    (ended : s.head.kind = .eof) : a.seen s = [] := by
  obtain ⟨rest, behind⟩ := s
  cases rest with
  | nil => rfl
  | cons first rest =>
    obtain rfl := once.1 ended
    have kind : first.kind = .eof := ended
    simp [Aspect.seen, kind, a.ended]

end EndsOnce

theorem Reads.endsOnce {shape : Shape} {goal : Goal shape} {s t : Stream} {result : shape.Result}
    (read : Reads goal s result t) (once : EndsOnce s.rest) : EndsOnce t.rest :=
  read.takes.keeps (P := fun u => EndsOnce u.rest) (fun _ _ once => once.tail)
    (fun wanted _ once => once.fuse wanted) once

/-- The tokens of a source that scans end with their only end. -/
theorem endsOnce_of_scan {source : Bytes} (scans : (scan source).fault = none) :
    EndsOnce (scan source).tokens := by
  have bounded : Scan.Bounded [] := by simp [Scan.Bounded]
  have here : Position.first.offset = Position.first.offset + 0 := by simp
  -- Nothing is appended here; what is wanted is that only the last token is an end.
  obtain ⟨tokens, last, again, -, split, -, same, -⟩ :=
    Scan.run_append bounded (by simp) scans here
  rw [scan, split]
  clear split
  induction same with
  | nil => exact ⟨fun _ => rfl, trivial⟩
  | cons first _ ih => exact ⟨fun ended => absurd ended first.inside, ih⟩

theorem Reads.stops_of_statements {nested : Bool} {place : Place} {nodes : List Node}
    {s t : Stream} (read : Reads (.statements nested place) s nodes t) :
    stops nested t.head.kind = true := by
  induction nodes generalizing s with
  | nil =>
    cases read with
    | noStatements stop => exact stop
  | cons first rest ih =>
    cases read with
    | statements going head tail => exact ih tail

/-- A program that parses has taken all that is seen of its source. -/
theorem Reads.seen_end {α : Type} {source : Bytes} {place : Place} {nodes : List Node}
    {t : Stream} (scans : (scan source).fault = none)
    (read : Reads (.statements false place) (Stream.ofTokens (scan source).tokens) nodes t)
    (a : Aspect α) : a.seen t = [] :=
  (read.endsOnce (endsOnce_of_scan scans)).seen_eq_nil a
    (by simpa [stops] using read.stops_of_statements)

end Grammar
end Tide
