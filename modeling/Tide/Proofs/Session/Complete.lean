import Mathlib
import Tide.Proofs.Eval.Sources
import Tide.Proofs.Grammar.Completeness
import Tide.Proofs.Grammar.Seen
import Tide.Proofs.Session.Buffering
import Tide.Proofs.Token.Brackets

/-!
# Complete programs are never held back

A session holds text back while brackets are open. A program that parses leaves none open, and at no
token of it have more brackets been closed than opened; so a session that holds nothing back runs
such a program as soon as it gets it.

## Proof strategy

Every rule of the grammar that takes an opening bracket takes the bracket that closes it, and what
is taken in between is balanced again. The induction over the rules carries what is seen of the
brackets in front of a goal as a balanced word followed by what is seen behind the goal. A list in
brackets is the one goal that takes a closing bracket alone.
-/
namespace Tide

namespace Kind

def isBracket (kind : Kind) : Bool := kind.isOpening || kind.isClosing

/-- The bracket that closes an opening one. -/
def partner? : Kind → Option Kind
  | .symbol .lparen => some (.symbol .rparen)
  | .symbol .lbrace => some (.symbol .rbrace)
  | .symbol .lbracket => some (.symbol .rbracket)
  | _ => none

theorem weight_of_partner {opening closing : Kind} (pair : opening.partner? = some closing) :
    opening.bracketWeight = 1 ∧ closing.bracketWeight = -1 := by
  unfold partner? at pair
  split at pair <;> cases pair <;> decide

theorem isBracket_of_partner {opening closing : Kind} (pair : opening.partner? = some closing) :
    opening.isBracket = true ∧ closing.isBracket = true := by
  unfold partner? at pair
  split at pair <;> cases pair <;> decide

end Kind

/-! ### Balanced words -/

/-- Every opening bracket is closed by its partner, with a balanced word in between. -/
inductive Balanced : List Kind → Prop where
  | nil : Balanced []
  | nest {opening closing : Kind} {within behind : List Kind}
      (pair : opening.partner? = some closing) (first : Balanced within)
      (rest : Balanced behind) : Balanced (opening :: (within ++ closing :: behind))

def bracketSum (word : List Kind) : Int := (word.map Kind.bracketWeight).sum

theorem bracketSum_cons (kind : Kind) (word : List Kind) :
    bracketSum (kind :: word) = kind.bracketWeight + bracketSum word := by
  simp [bracketSum]

theorem bracketSum_append (v w : List Kind) :
    bracketSum (v ++ w) = bracketSum v + bracketSum w := by
  simp [bracketSum]

namespace Balanced

variable {v w : List Kind}

theorem append (first : Balanced v) (second : Balanced w) : Balanced (v ++ w) := by
  induction first with
  | nil => exact second
  | nest pair within behind ihWithin ihBehind =>
    rw [List.cons_append, List.append_assoc, List.cons_append]
    exact .nest pair within ihBehind

theorem sum_eq_zero (balanced : Balanced w) : bracketSum w = 0 := by
  induction balanced with
  | nil => rfl
  | nest pair within behind ihWithin ihBehind =>
    obtain ⟨up, down⟩ := Kind.weight_of_partner pair
    rw [bracketSum_cons, bracketSum_append, bracketSum_cons, up, down, ihWithin, ihBehind]
    rfl

theorem sum_take_nonneg (balanced : Balanced w) (k : Nat) : 0 ≤ bracketSum (w.take k) := by
  induction balanced generalizing k with
  | nil => simp [bracketSum]
  | @nest opening closing within behind pair first rest ihWithin ihBehind =>
    obtain ⟨up, down⟩ := Kind.weight_of_partner pair
    cases k with
    | zero => simp [bracketSum]
    | succ k =>
      rw [List.take_succ_cons, bracketSum_cons, List.take_append, bracketSum_append, up]
      cases more : k - within.length with
      | zero =>
        have inside := ihWithin k
        simp only [List.take_zero, bracketSum, List.map_nil, List.sum_nil] at inside ⊢
        omega
      | succ j =>
        -- The cut is behind the closing bracket: all that stands inside has been taken.
        have whole : within.take k = within := List.take_of_length_le (by omega)
        have later := ihBehind j
        rw [whole, first.sum_eq_zero, List.take_succ_cons, bracketSum_cons, down]
        omega

end Balanced

/-! ### The brackets a goal takes -/

namespace Grammar

def bracketAspect : Aspect Kind where
  view kind := if kind.isBracket then [kind] else []
  separator := by decide
  ended := by decide
  fused _ := rfl
  parts operator := by cases operator <;> decide

/-- A balanced word and what follows it. -/
def Between (v w : List Kind) : Prop := ∃ word, Balanced word ∧ v = word ++ w

namespace Between

variable {u v w : List Kind}

theorem refl (v : List Kind) : Between v v := ⟨[], .nil, rfl⟩

theorem trans (first : Between u v) (second : Between v w) : Between u w := by
  obtain ⟨left, balancedLeft, rfl⟩ := first
  obtain ⟨right, balancedRight, rfl⟩ := second
  exact ⟨left ++ right, balancedLeft.append balancedRight, by rw [List.append_assoc]⟩

theorem nest {opening closing : Kind} (pair : opening.partner? = some closing)
    (inside : Between v (closing :: w)) : Between (opening :: v) w := by
  obtain ⟨word, balanced, rfl⟩ := inside
  exact ⟨opening :: (word ++ [closing]), .nest pair balanced .nil, by simp⟩

end Between

end Grammar
open Grammar

def Stream.brackets (s : Stream) : List Kind := bracketAspect.seen s

namespace Stream

variable {s : Stream}

theorem brackets_tail (plain : s.head.kind.isBracket = false) : s.tail.brackets = s.brackets := by
  rw [brackets, brackets, bracketAspect.seen_tail s]
  simp [bracketAspect, plain]

theorem brackets_of_bracket {kind : Kind} (here : s.head.kind = kind)
    (bracket : kind.isBracket = true) : s.brackets = kind :: s.tail.brackets := by
  rw [brackets, bracketAspect.seen_tail s]
  simp [bracketAspect, here, bracket, brackets]

@[simp] theorem brackets_skip : s.skip.brackets = s.brackets := by
  simp [brackets]

@[simp] theorem brackets_fuse (wanted : List Fused) : (s.fuse wanted).brackets = s.brackets := by
  simp [brackets]

@[simp] theorem brackets_prepare (level : Level) : (level.prepare s).brackets = s.brackets := by
  simp [brackets]

end Stream

namespace Grammar

theorem Level.not_isBracket_of_isOperator {level : Level} {kind : Kind}
    (sign : level.isOperator kind = true) : kind.isBracket = false := by
  have brackets : ∀ s ∈ [Symbol.lparen, .lbrace, .lbracket, .rparen, .rbrace, .rbracket],
      level.isOperator (.symbol s) = false := by
    cases level <;> decide
  cases kind with
  | symbol s =>
    cases s
    all_goals
      first
      | rfl
      | exact absurd (sign.symm.trans (brackets _ (by decide))) (by decide)
  | _ => rfl

theorem not_isBracket_of_isNumeric {kind : Kind} (numeric : kind.isNumeric = true) :
    kind.isBracket = false := by
  cases kind with
  | number | float => rfl
  | _ => simp [Kind.isNumeric] at numeric

/-- An opening bracket, and the one that closes it behind what is taken in between. -/
theorem Between.opened {s : Stream} {opening closing : Kind} {w : List Kind}
    (first : s.head.kind = opening) (pair : opening.partner? = some closing)
    (inside : Between s.tail.brackets (closing :: w)) : Between s.brackets w := by
  rw [Stream.brackets_of_bracket first (Kind.isBracket_of_partner pair).1]
  exact inside.nest pair

theorem Between.closed {s t : Stream} {opening closing : Kind} (first : s.head.kind = opening)
    (last : t.head.kind = closing) (pair : opening.partner? = some closing)
    (inside : Between s.tail.brackets t.brackets) : Between s.brackets t.tail.brackets := by
  rw [Stream.brackets_of_bracket last (Kind.isBracket_of_partner pair).2] at inside
  exact inside.opened first pair

theorem Reads.between {shape : Shape} {goal : Goal shape} {s t : Stream} {result : shape.Result}
    (read : Reads goal s result t) :
    Between s.brackets (goal.closing.flatMap bracketAspect.view ++ t.brackets) := by
  induction read with
  -- The rules with brackets of their own.
  | body opening inside closing ih => exact ih.closed opening closing rfl
  | branch opening filled inside closing follow ih ihFollow =>
    exact (ih.closed opening closing rfl).trans ihFollow
  | object opening inside closing ih => exact ih.closed opening closing rfl
  | array opening inside ih => exact ih.opened opening rfl
  | call opening inside rest ih ihRest => exact (ih.opened opening rfl).trans ihRest
  | index opening inside closing rest ih ihRest =>
    exact (ih.closed opening closing rfl).trans ihRest
  | parenthesized opening inside closing ih => exact ih.closed opening closing rfl
  -- A list takes the closing bracket, whose partner was taken in front of it.
  | @empty closing place s at_ =>
    have last := bracketAspect.seen_tail s
    rw [at_] at last
    simpa [Goal.closing, Stream.brackets, last] using Between.refl _
  | @list closing place s elements t filled inside at_ ih =>
    have last := bracketAspect.seen_tail t
    rw [at_] at last
    simpa [Goal.closing, Stream.brackets, last] using ih
  -- Tokens that are known by a test of their kind only.
  | @declare place s value t constant marker name sign initial ih =>
    have first : s.tail.brackets = s.brackets :=
      Stream.brackets_tail (by cases constant <;> simp [marker] <;> rfl)
    simpa [Goal.closing, Stream.brackets_tail, Kind.isBracket, Kind.isOpening, Kind.isClosing,
      name, sign, first] using ih
  | @right level place s left t operand u right first sign rest ih ihRest =>
    rw [Level.closing_operand] at ih
    rw [Stream.brackets_tail (Level.not_isBracket_of_isOperator sign),
      Stream.brackets_prepare] at ihRest
    exact ih.trans ihRest
  | @more level place s left operand t result u sign next rest ih ihRest =>
    rw [Level.closing_operand, Stream.brackets_tail (Level.not_isBracket_of_isOperator sign)] at ih
    exact ih.trans ihRest
  | number kind =>
    rw [Stream.brackets_tail (not_isBracket_of_isNumeric kind)]
    exact Between.refl _
  | @signed place s value sign kind reading =>
    have first : s.tail.brackets = s.brackets :=
      Stream.brackets_tail (by rcases sign with sign | sign <;> rw [sign] <;> rfl)
    rw [Stream.brackets_tail (not_isBracket_of_isNumeric kind), first]
    exact Between.refl _
  | _ =>
    simp_all [Goal.closing, Stream.brackets_tail, Kind.isBracket, Kind.isOpening, Kind.isClosing]
    try grind [Between.trans, Between.refl]

end Grammar

/-! ### The brackets of a program -/

theorem openBrackets_eq_sum (tokens : List Token) :
    openBrackets tokens = bracketSum (tokens.flatMap fun t => bracketAspect.view t.kind) := by
  induction tokens with
  | nil => rfl
  | cons t tokens ih =>
    have first : bracketSum (bracketAspect.view t.kind) = t.kind.bracketWeight := by
      by_cases bracket : t.kind.isBracket = true
      · simp [bracketAspect, bracket, bracketSum]
      · have neither : t.kind.isOpening = false ∧ t.kind.isClosing = false := by
          simpa [Kind.isBracket] using bracket
        simp [bracketAspect, bracket, bracketSum, Kind.bracketWeight, neither]
    rw [openBrackets_cons, List.flatMap_cons, bracketSum_append, first, ih]

/-- The brackets of a program that parses are balanced. -/
theorem balanced_of_parse {source : Bytes} {program : Node}
    (parsed : (read source).program = .ok program) :
    Balanced ((scan source).tokens.flatMap fun t => bracketAspect.view t.kind) := by
  obtain ⟨scans, parsed⟩ := read_ok_iff.mp parsed
  obtain ⟨statements, t, read, -⟩ := parse_ok_iff.mp parsed
  obtain ⟨word, balanced, seen⟩ := read.between
  have nothing : t.brackets = [] := read.seen_end scans bracketAspect
  have whole : (Stream.ofTokens (scan source).tokens).brackets = word := by
    simpa [nothing, Goal.closing] using seen
  change Balanced (Stream.ofTokens (scan source).tokens).brackets
  rwa [whole]

theorem bracketDepth_of_parse {source : Bytes} {program : Node}
    (parsed : (read source).program = .ok program) : bracketDepth source = 0 := by
  have scans := (read_ok_iff.mp parsed).1
  calc bracketDepth source = openBrackets (scan source).tokens := Bracket.openFrom_run scans
    _ = bracketSum _ := openBrackets_eq_sum _
    _ = 0 := (balanced_of_parse parsed).sum_eq_zero

theorem openBrackets_take_nonneg {source : Bytes} {program : Node}
    (parsed : (read source).program = .ok program) (k : Nat) :
    0 ≤ openBrackets ((scan source).tokens.take k) := by
  rw [openBrackets_eq_sum]
  -- What is seen of the first tokens is the beginning of what is seen of all.
  have beginning : ((scan source).tokens.take k).flatMap (fun t => bracketAspect.view t.kind) <+:
      (scan source).tokens.flatMap fun t => bracketAspect.view t.kind := by
    conv_rhs => rw [← List.take_append_drop k (scan source).tokens, List.flatMap_append]
    exact List.prefix_append _ _
  rw [List.prefix_iff_eq_take.mp beginning]
  exact (balanced_of_parse parsed).sum_take_nonneg _

namespace Session

/-! ### What a session does with a program -/

theorem store_evaluate (session : Session) (depth : Nat) {source : Bytes} {program : Node}
    (parsed : (read source).program = .ok program) :
    (session.evaluate depth source).machine.store =
      (session.machine.evaluate depth program).2.store := by
  unfold evaluate
  simp only [parsed, complain]
  split
  next ran =>
    simp only [echo, ran]
    split <;> rfl
  next ran => simp [report, complain, ran]

/-- A program that parses leaves no bracket open, and none of its beginnings closes more brackets
than it opens. A session that holds nothing back takes it as complete, runs it at once unless it is
blank, and holds nothing back afterwards. -/
theorem feed_of_parse {source : Bytes} {program : Node}
    (parsed : (read source).program = .ok program) :
    bracketDepth source = 0 ∧ (∀ k, 0 ≤ openBrackets ((scan source).tokens.take k)) ∧
      ∀ (session : Session) (depth : Nat), session.pending = [] →
        (session.feed depth source).1 = true ∧ (session.feed depth source).2.pending = [] ∧
        (session.feed depth source).2 =
          (if isBlankText source then session else session.evaluate depth source) ∧
        (isBlankText source = false → (session.feed depth source).2.machine.store =
          (session.machine.evaluate depth program).2.store) := by
  have closed := bracketDepth_of_parse parsed
  refine ⟨closed, openBrackets_take_nonneg parsed, fun session depth nothing => ?_⟩
  have emptied : { session with pending := [] } = session := by rw [← nothing]
  have fed : session.feed depth source =
      (true, if isBlankText source then session else session.evaluate depth source) := by
    simp [feed, joined, nothing, closed, emptied]
  rw [fed]
  refine ⟨rfl, ?_, rfl, fun filled => ?_⟩
  · by_cases blank : isBlankText source = true
    · simp [blank, nothing]
    · simp [blank, pending_evaluate, nothing]
  · simp [filled, store_evaluate session depth parsed]

/-- The program `if {a} (f([b]))`. -/
def nestedChoice : Node :=
  .program ⟨⟨0, 1, 1⟩, ⟨15, 1, 16⟩⟩ [.choice ⟨⟨0, 1, 1⟩, ⟨15, 1, 16⟩⟩
    [.mk ⟨⟨0, 1, 1⟩, ⟨15, 1, 16⟩⟩ (.name ⟨⟨4, 1, 5⟩, ⟨5, 1, 6⟩⟩ (utf8 "a"))
      [.call ⟨⟨8, 1, 9⟩, ⟨14, 1, 15⟩⟩ (.name ⟨⟨8, 1, 9⟩, ⟨9, 1, 10⟩⟩ (utf8 "f"))
        [.array ⟨⟨10, 1, 11⟩, ⟨13, 1, 14⟩⟩ [.name ⟨⟨11, 1, 12⟩, ⟨12, 1, 13⟩⟩ (utf8 "b")]]]]
    none]

theorem feed_nestedChoice :
    (read (utf8 "if \x7ba\x7d (f([b]))")).program = .ok nestedChoice ∧
      ((start false).feed 9 (utf8 "if \x7ba\x7d (f([b]))")).1 = true := by
  have parsed : (read (utf8 "if \x7ba\x7d (f([b]))")).program = .ok nestedChoice := by cbv
  exact ⟨parsed, ((feed_of_parse parsed).2.2 (start false) 9 rfl).1⟩

end Session
end Tide
