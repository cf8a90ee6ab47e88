import Tide.Proofs.Grammar.RoundTrip
import Tide.Proofs.Tree.Points

/-!
# When formatting is stable

The text of a program is read back and written again. The second text is the first one exactly if no
number of the program has a member: a number takes up the point behind it, and there is no program
whose text has a point in that place.

## Proof strategy

Where no number has a member, the round trip gives the same tree up to places and widths. For the
converse, points are counted. The parser makes one object in front of a point for each point token,
and the tokens of the text show a point for each of these objects, but for those that a number took
up. If the second program has the first one's text, no number took up a point.
-/
namespace Tide

namespace Grammar

/-! ### The parser takes a point for each member -/

def pointAspect : Aspect Unit where
  view kind := if kind = .symbol .dot then [()] else []
  separator := by decide
  ended := by decide
  fused _ := by simp
  parts operator := by cases operator <;> decide

@[simp] theorem view_pointAspect (kind : Kind) :
    pointAspect.view kind = if kind = .symbol .dot then [()] else [] := rfl

end Grammar
open Grammar

/-- How many points are left. -/
def Stream.points (s : Stream) : Nat := (pointAspect.seen s).length

namespace Stream

variable {s : Stream}

theorem points_tail_of_ne (other : s.head.kind ≠ .symbol .dot) : s.tail.points = s.points := by
  rw [points, points, pointAspect.seen_tail s, List.length_append]
  simp [pointAspect, other]

theorem points_tail_of_dot (point : s.head.kind = .symbol .dot) :
    s.points = s.tail.points + 1 := by
  rw [points, pointAspect.seen_tail s, List.length_append, ← points]
  simp [pointAspect, point, Nat.add_comm]

theorem points_skip : s.skip.points = s.points := by
  simp [points]

theorem points_fuse {wanted : List Fused} : (s.fuse wanted).points = s.points := by
  simp [points]

theorem points_prepare (level : Level) : (level.prepare s).points = s.points := by
  simp [points]

end Stream

namespace Grammar

/-- The objects in front of a point in the result of a goal. -/
def Shape.pointed {shape : Shape} (result : shape.Result) : List Node :=
  match shape, result with
  | .node, found => found.pointed
  | .nodes, found => found.flatMap Node.pointed
  | .branch, found => found.condition.pointed ++ found.body.flatMap Node.pointed
  | .branches, (found, otherwise) =>
    found.flatMap (fun one => one.condition.pointed ++ one.body.flatMap Node.pointed) ++
      (otherwise.getD []).flatMap Node.pointed
  | .names, _ => []
  | .properties, entries => entries.flatMap fun entry => entry.value.pointed

/-- Those in what a goal starts out with. -/
def Goal.given {shape : Shape} : Goal shape → List Node
  | .more _ _ left | .accesses _ left => left.pointed
  | _ => []

theorem Level.given_operand (level : Level) (place : Place) : (level.operand place).given = [] := by
  cases level <;> rfl

theorem Level.pointed_combine (level : Level) (operator : Kind) (left right : Node) :
    (level.combine operator left right).pointed = left.pointed ++ right.pointed := by
  cases level <;> simp [combine, operation, Node.pointed]

theorem Level.ne_dot_of_isOperator {level : Level} {kind : Kind}
    (sign : level.isOperator kind = true) : kind ≠ .symbol .dot := by
  rintro rfl
  cases level <;> simp [isOperator, isAdditive, isMultiplicative, isLogical, isComparison] at sign

theorem ne_dot_of_isNumeric {kind : Kind} (numeric : kind.isNumeric = true) :
    kind ≠ .symbol .dot := by
  rintro rfl
  simp [Kind.isNumeric] at numeric

theorem Reads.points {shape : Shape} {goal : Goal shape} {s t : Stream} {result : shape.Result}
    (read : Reads goal s result t) :
    s.points + goal.given.length =
      t.points + (Shape.pointed result).length +
        (goal.closing.flatMap pointAspect.view).length := by
  induction read with
  -- The one rule that takes a point, and the one that makes an object in front of it.
  | @property place s object node t point key rest ih =>
    have behind := Stream.points_tail_of_dot point
    have last : s.tail.tail.points = s.tail.points := Stream.points_tail_of_ne (by simp [key])
    simp [Goal.given, Goal.closing, Shape.pointed, Node.pointed] at ih ⊢
    omega
  -- Tokens that are known by a test of their kind only.
  | number kind =>
    have behind := Stream.points_tail_of_ne (ne_dot_of_isNumeric kind)
    simp [Goal.given, Goal.closing, Shape.pointed, Node.pointed, behind]
  | @signed place s value sign kind reading =>
    have first : s.tail.points = s.points :=
      Stream.points_tail_of_ne (by rcases sign with sign | sign <;> simp [sign])
    have behind := Stream.points_tail_of_ne (ne_dot_of_isNumeric kind)
    simp [Goal.given, Goal.closing, Shape.pointed, Node.pointed, behind, first]
  | @declare place s value t constant marker name sign initial ih =>
    have first : s.tail.points = s.points :=
      Stream.points_tail_of_ne (by cases constant <;> simp [marker])
    simpa [Goal.given, Goal.closing, Shape.pointed, Node.pointed, Stream.points_tail_of_ne, name,
      sign, first] using ih
  -- Operands are read by another level, or by what is tighter than all levels.
  | alone right first end_ ih =>
    rw [Level.given_operand, Level.closing_operand] at ih
    simpa [Goal.given, Goal.closing, Stream.points_prepare] using ih
  | @right level place s left t operand u right first sign rest ih ihRest =>
    have behind := Stream.points_tail_of_ne (Level.ne_dot_of_isOperator sign)
    rw [Level.given_operand, Level.closing_operand] at ih
    simp [Goal.given, Goal.closing, Shape.pointed, behind, Stream.points_prepare,
      Level.pointed_combine] at ih ihRest ⊢
    omega
  | left left head rest ih ihRest =>
    rw [Level.given_operand, Level.closing_operand] at ih
    simp [Goal.given, Goal.closing, Shape.pointed] at ih ihRest ⊢
    omega
  | @more level place s left operand t result u sign next rest ih ihRest =>
    have behind := Stream.points_tail_of_ne (Level.ne_dot_of_isOperator sign)
    rw [Level.given_operand, Level.closing_operand] at ih
    simp [Goal.given, Goal.closing, Shape.pointed, behind, Level.pointed_combine] at ih ihRest ⊢
    omega
  -- The symbol at the end of a list could itself be a point, as far as the rules go.
  | @empty closing place s at_ =>
    have last := pointAspect.seen_tail s
    simp [Goal.given, Goal.closing, Shape.pointed, Stream.points, last, at_, Nat.add_comm]
  | @list closing place s elements t filled inside at_ ih =>
    have last := pointAspect.seen_tail t
    simp [Goal.given, Goal.closing, Shape.pointed, Stream.points, last, at_] at ih ⊢
    omega
  | _ =>
    simp_all [Stream.points_tail_of_ne, Stream.points_skip, Stream.points_fuse, Goal.given,
      Goal.closing, Shape.pointed, Node.pointed, Branch.condition, Branch.body, Property.value] <;>
      try omega

end Grammar

/-! ### The points of a text -/

/-- The tokens of words show the points of the words. -/
theorem Spells.points {tokens : List Token} {words : List Word} (spelled : Spells tokens words)
    (all : Bool) :
    tokens.countP (fun t => Word.isPoint all ⟨t.kind, t.lexeme⟩) = Word.points all words := by
  induction spelled with
  | nil => rfl
  | word kind lexeme rest ih => simp [List.countP_cons, Word.points_cons, ih, kind, lexeme]
  | pair operator first second touching rest ih =>
    rw [Word.points_pair, List.countP_cons, List.countP_cons, ih]
    cases operator <;> simp [Word.isPoint, first, second, Fused.parts, Kind.isNumeric]

theorem points_ofTokens (tokens : List Token) :
    (Stream.ofTokens tokens).points =
      tokens.countP fun t => Word.isPoint false ⟨t.kind, t.lexeme⟩ := by
  simp only [Stream.points, Aspect.seen, Stream.ofTokens]
  induction tokens with
  | nil => rfl
  | cons first rest ih =>
    rw [List.flatMap_cons, List.length_append, ih, List.countP_cons, Nat.add_comm]
    by_cases point : first.kind = .symbol .dot <;> simp [Word.isPoint, point]

/-- The text of a program from a source, and how many points its tokens show. -/
theorem points_of_format {source : Bytes} {program : Node}
    (parsed : (read source).program = .ok program) (all : Bool) :
    (scan program.format).tokens.countP (fun t => Word.isPoint all ⟨t.kind, t.lexeme⟩) =
      objects all program.pointed := by
  obtain ⟨-, parsed⟩ := read_ok_iff.mp parsed
  obtain ⟨span, statements, rfl, trees⟩ := grammatical_of_scan parsed
  obtain ⟨tokens, scanned, spelled⟩ := @cuts_program span statements trees .first
  have each : ∀ statement ∈ statements,
      Word.points all statement.words = objects all statement.pointed :=
    fun statement member => (trees statement member).points
  rw [scan, scanned, spelled.points all, Word.points_append, lineWords_eq, points_lines each,
    Node.pointed, pointedAll_eq]
  simp [Word.points_cons, Word.isPoint, Word.last, Kind.isNumeric]

/-- The points of a source are those in front of the members of its program. -/
theorem points_of_source {source : Bytes} {program : Node}
    (parsed : (read source).program = .ok program) :
    (scan source).tokens.countP (fun t => Word.isPoint false ⟨t.kind, t.lexeme⟩) =
      program.pointed.length := by
  obtain ⟨scans, parsed⟩ := read_ok_iff.mp parsed
  obtain ⟨statements, t, read, rfl⟩ := parse_ok_iff.mp parsed
  have counted := read.points
  have nothing : t.points = 0 := by simp [Stream.points, read.seen_end scans]
  rw [points_ofTokens, nothing] at counted
  simpa [Goal.given, Goal.closing, Shape.pointed, Node.pointed] using counted

theorem legible_of_stable {source : Bytes} {program again : Node}
    (parsed : (read source).program = .ok program)
    (parsedAgain : (read program.format).program = .ok again)
    (stable : again.format = program.format) : program.Legible := by
  -- Equal texts show equally many points, alone or in a number.
  have all : objects true again.pointed = objects true program.pointed := by
    rw [← points_of_format parsedAgain, ← points_of_format parsed, stable]
  -- The second program has an object for each point that stands alone in the first one's text.
  have some : objects false program.pointed = objects true again.pointed := by
    rw [← points_of_format parsed, points_of_source parsedAgain]
    simp [objects]
  have every :
      program.pointed.countP (fun object => !object.isNumber) = program.pointed.length := by
    simpa [objects] using some.trans all
  intro object member
  simpa using List.countP_eq_length.mp every object member

/-- Formatting is stable exactly where no number has a member. -/
theorem format_stable_iff {source : Bytes} {program : Node}
    (parsed : (read source).program = .ok program) :
    (∃ again, (read program.format).program = .ok again ∧ again.format = program.format) ↔
      program.Legible := by
  constructor
  · rintro ⟨again, parsedAgain, stable⟩
    exact legible_of_stable parsed parsedAgain stable
  · intro legible
    obtain ⟨tokens, again, scanned, parsedAgain, same⟩ := parse_scan_format parsed legible
    refine ⟨again, read_ok_iff.mpr ?_, Node.format_eq_of_content_eq same⟩
    rw [scanned]
    exact ⟨rfl, parsedAgain⟩

/-- The program `a.b`. -/
def plainMember : Node :=
  .program ⟨⟨0, 1, 1⟩, ⟨3, 1, 4⟩⟩ [.member ⟨⟨0, 1, 1⟩, ⟨3, 1, 4⟩⟩
    (.name ⟨⟨0, 1, 1⟩, ⟨1, 1, 2⟩⟩ (utf8 "a")) (.name ⟨⟨2, 1, 3⟩, ⟨3, 1, 4⟩⟩ (utf8 "b")) false]

theorem format_stable_plainMember :
    (read (utf8 "a.b")).program = .ok plainMember ∧
      ∃ again, (read plainMember.format).program = .ok again ∧
        again.format = plainMember.format := by
  have parsed : (read (utf8 "a.b")).program = .ok plainMember := by cbv
  exact ⟨parsed, (format_stable_iff parsed).mpr (by simp [plainMember, Node.Legible, Node.pointed,
    Node.isNumber])⟩

/-- The member of a number comes back as two statements. -/
theorem format_unstable_number :
    ¬ ∀ source program, (read source).program = .ok program →
      ∃ again, (read program.format).program = .ok again ∧ again.format = program.format := by
  intro stable
  have first : (read (utf8 "1 .x")).program.toOption.map Node.format = some (utf8 "1.x;\n") := by
    decide +kernel
  have second : (read (utf8 "1.x;\n")).program.toOption.map Node.format =
      some (utf8 "1;\nx;\n") := by
    decide +kernel
  cases parsed : (read (utf8 "1 .x")).program with
  | error fault => simp [parsed, Except.toOption] at first
  | ok program =>
    obtain ⟨again, parsedAgain, same⟩ := stable _ program parsed
    have text : program.format = utf8 "1.x;\n" := by simpa [parsed, Except.toOption] using first
    rw [text] at parsedAgain same
    rw [parsedAgain] at second
    simp only [Except.toOption, Option.map_some, Option.some.injEq, same] at second
    exact absurd second (by decide)

end Tide
