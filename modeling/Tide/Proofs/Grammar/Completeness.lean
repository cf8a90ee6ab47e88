import Tide.Proofs.Grammar.Soundness

/-!
# Whatever the rules allow is found

The bounds on depth and on rounds never stand in the way: a parser that may go as deep as twice the
number of tokens left finds what the rules say. `Goal.Found` fixes the bound for each goal. A goal
that starts with a whole statement or expression needs more room than one that takes a token of its
own first.
-/
namespace Tide

namespace Grammar

/-- What is combined at a level, read to a given depth. -/
def Level.operandParser (depth : Nat) (place : Place) : Level → Parser Node
  | .assignment => Grammar.simple (statement depth) (expression depth) depth place
  | .sum => Grammar.product (statement depth) (expression depth) depth place
  | .product => Grammar.logical (statement depth) (expression depth) depth place
  | .logical => Grammar.comparison (statement depth) (expression depth) depth place
  | .comparison => Grammar.accessed (statement depth) (expression depth) depth place

def Level.prepareParser : Level → Parser Unit
  | .comparison => Parser.fuse comparisonPairs
  | _ => pure ()

def Level.moreParser (depth rounds : Nat) (place : Place) (level : Level) (left : Node) :
    Parser Node :=
  Parser.leftChain level.isOperator (level.operandParser depth place) level.combine left rounds

def Level.parser (depth rounds : Nat) (place : Place) (level : Level) : Parser Node :=
  if level.groupsLeft then do
    let first ← level.operandParser depth place
    level.moreParser depth rounds place first
  else
    Parser.rightChain level.prepareParser level.isOperator (level.operandParser depth place)
      level.combine rounds

theorem expression_succ (depth : Nat) (place : Place) :
    expression (depth + 1) place = Level.assignment.parser depth depth place := rfl

theorem Level.prepareParser_ok (level : Level) (s : Stream) :
    level.prepareParser s = .ok ((), level.prepare s) := by
  cases level <;> rfl

/-- The parser of a goal gives this result, at every depth that the tokens left call for. -/
def Goal.Found {shape : Shape} (goal : Goal shape) (s : Stream) (result : shape.Result)
    (t : Stream) : Prop :=
  match shape, goal, result with
  | _, .statement place, result =>
    ∀ depth, 2 * s.rest.length + 2 ≤ depth → Grammar.statement depth place s = .ok (result, t)
  | _, .statements nested place, result =>
    ∀ depth rounds, 2 * s.rest.length + 2 ≤ depth → s.rest.length < rounds →
      Parser.statements (stops nested) (Grammar.statement depth place) rounds s = .ok (result, t)
  | _, .body place, result =>
    ∀ depth, 2 * s.rest.length ≤ depth →
      Grammar.body (Grammar.statement depth) depth place s = .ok (result, t)
  | _, .branch place start, result =>
    ∀ depth, 2 * s.rest.length ≤ depth →
      Grammar.branch (Grammar.statement depth) (Grammar.expression depth) depth place start s =
        .ok (result, t)
  | _, .alternatives place, result =>
    ∀ depth rounds, 2 * s.rest.length ≤ depth → s.rest.length < rounds →
      Grammar.alternatives (Grammar.statement depth) (Grammar.expression depth) depth place rounds
        s = .ok (result, t)
  | _, .choice place, result =>
    ∀ depth, 2 * s.rest.length ≤ depth →
      Grammar.choice (Grammar.statement depth) (Grammar.expression depth) depth place s =
        .ok (result, t)
  | _, .ret place, result =>
    ∀ depth, 2 * s.rest.length ≤ depth →
      Grammar.ret (Grammar.expression depth) place s = .ok (result, t)
  | _, .chain level place, result =>
    ∀ depth rounds, 2 * s.rest.length ≤ depth → s.rest.length < rounds →
      level.parser depth rounds place s = .ok (result, t)
  | _, .more level place left, result =>
    ∀ depth rounds, 2 * s.rest.length ≤ depth → s.rest.length < rounds →
      level.moreParser depth rounds place left s = .ok (result, t)
  | _, .simple place, result =>
    ∀ depth, 2 * s.rest.length ≤ depth →
      Grammar.simple (Grammar.statement depth) (Grammar.expression depth) depth place s =
        .ok (result, t)
  | _, .accessed place, result =>
    ∀ depth, 2 * s.rest.length ≤ depth →
      Grammar.accessed (Grammar.statement depth) (Grammar.expression depth) depth place s =
        .ok (result, t)
  | _, .accesses place object, result =>
    ∀ depth rounds, 2 * s.rest.length ≤ depth → s.rest.length < rounds →
      Grammar.accesses (Grammar.expression depth) depth place object rounds s = .ok (result, t)
  | _, .term place, result =>
    ∀ depth, 2 * s.rest.length ≤ depth →
      Grammar.term (Grammar.statement depth) (Grammar.expression depth) depth place s =
        .ok (result, t)
  | _, .items place, result =>
    ∀ depth rounds, 2 * s.rest.length + 1 ≤ depth → s.rest.length < rounds →
      Parser.commaSeparated (Grammar.expression depth place) rounds s = .ok (result, t)
  | _, .list closing place, result =>
    ∀ depth, 2 * s.rest.length + 1 ≤ depth →
      Parser.listUpTo closing (Grammar.expression depth place) depth s = .ok (result, t)
  | _, .names, result =>
    ∀ rounds, s.rest.length < rounds →
      Parser.commaSeparated (do return (← Parser.expect .ident).lexeme) rounds s = .ok (result, t)
  | _, .params, result => ∀ limit, s.rest.length ≤ limit → Grammar.params limit s = .ok (result, t)
  | _, .properties place, result =>
    ∀ depth rounds, 2 * s.rest.length ≤ depth → s.rest.length < rounds →
      Grammar.properties (Grammar.expression depth) place rounds s = .ok (result, t)

/-- An expression takes a token, so there is room for one level more. -/
theorem Goal.Found.expression {place : Place} {s t : Stream} {node : Node}
    (found : (Goal.expression place).Found s node t) (taken : t.rest.length + 1 ≤ s.rest.length)
    (depth : Nat) (enough : 2 * s.rest.length + 1 ≤ depth) :
    Grammar.expression depth place s = .ok (node, t) := by
  cases depth with
  | zero => omega
  | succ depth =>
    rw [expression_succ]
    exact found depth depth (by omega) (by omega)

theorem Reads.operand_length_le {level : Level} {place : Place} {s t : Stream} {node : Node}
    (read : Reads (level.operand place) s node t) : t.rest.length + 1 ≤ s.rest.length := by
  simpa using read.length_le

theorem Goal.Found.operand {level : Level} {place : Place} {s t : Stream} {node : Node}
    (found : (level.operand place).Found s node t) (taken : t.rest.length + 1 ≤ s.rest.length)
    (depth : Nat) (enough : 2 * s.rest.length ≤ depth) :
    level.operandParser depth place s = .ok (node, t) := by
  cases level with
  | assignment => exact found depth enough
  | sum => exact found depth depth enough (by omega)
  | product => exact found depth depth enough (by omega)
  | logical => exact found depth depth enough (by omega)
  | comparison => exact found depth enough

/-- The statements of a body stop where its parser says. -/
theorem body_ok {depth : Nat} {place : Place} {s t : Stream} {statements : List Node}
    (opening : s.head.kind = .symbol .lparen)
    (found : Parser.statements (stops true) (statement depth place) depth s.tail =
      .ok (statements, t))
    (closing : t.head.kind = .symbol .rparen) :
    body (statement depth) depth place s = .ok (statements, t.tail) := by
  change Parser.statements (fun kind => kind = .symbol .rparen || kind = .eof) _ _ _ = _ at found
  simp [body, opening, closing, found, and_assoc, -bind_pure_comp]

/-- A statement that opens like no other is an expression. -/
theorem statementStep_of_expression {depth : Nat} {place : Place} {s t : Stream} {node : Node}
    (plain : opensStatement s.head.kind = false)
    (found : expression depth place.inner s = .ok (node, t)) :
    statement (depth + 1) place s = .ok (node, t) := by
  simp only [statement, statementStep, Parser.bind_ok_iff, Parser.peekKind_ok_iff]
  refine ⟨_, _, ⟨rfl, rfl⟩, ?_⟩
  generalize s.head.kind = kind at plain
  unfold opensStatement at plain
  split <;> simp_all

theorem simple_of_sum {depth : Nat} {place : Place} {s t : Stream} {node : Node}
    (noObject : s.head.kind ≠ .symbol .lbrace) (noArray : s.head.kind ≠ .symbol .lbracket)
    (found : sum (statement depth) (expression depth) depth place s = .ok (node, t)) :
    simple (statement depth) (expression depth) depth place s = .ok (node, t) := by
  simp only [simple, Parser.bind_ok_iff, Parser.peekKind_ok_iff]
  refine ⟨_, _, ⟨rfl, rfl⟩, ?_⟩
  generalize s.head.kind = kind at noObject noArray
  split <;> simp_all

theorem accesses_stop {depth rounds : Nat} {place : Place} {object : Node} {s : Stream}
    (noCall : s.head.kind ≠ .symbol .lparen) (noProperty : s.head.kind ≠ .symbol .dot)
    (noIndex : s.head.kind ≠ .symbol .lbracket) :
    accesses (expression depth) depth place object (rounds + 1) s = .ok (object, s) := by
  simp only [accesses, Parser.bind_ok_iff, Parser.peekKind_ok_iff]
  refine ⟨_, _, ⟨rfl, rfl⟩, ?_⟩
  generalize s.head.kind = kind at noCall noProperty noIndex
  split <;> simp_all

theorem term_of_numeric {depth : Nat} {place : Place} {s : Stream} {value : Float}
    (kind : s.head.kind.isNumeric = true) (reading : Number.read? s.head.lexeme = some value) :
    term (statement depth) (expression depth) depth place s =
      .ok (.number s.head.span value s.head.lexeme.length, s.tail) := by
  have either : s.head.kind = .number ∨ s.head.kind = .float := by
    generalize s.head.kind = found at kind
    cases found <;> simp_all [Kind.isNumeric]
  rcases either with either | either <;> simp [term, either, reading, and_assoc]

theorem Reads.found {shape : Shape} {goal : Goal shape} {s t : Stream} {result : shape.Result}
    (read : Reads goal s result t) : goal.Found s result t := by
  -- On the derivation. A part has fewer tokens than the whole by those taken in front of it, so
  -- every case first counts the tokens taken: `omega` then finds room for the depth of each part.
  induction read with
  | @bare place s marker name separator =>
    intro depth enough
    cases depth with
    | zero => omega
    | succ depth =>
      simp [Grammar.statement, statementStep, declaration, marker, name, separator, and_assoc,
        -bind_pure_comp]
  | @declare place s value t constant marker name sign initial ih =>
    intro depth enough
    have first := s.length_tail_of_head (by simp [marker])
    have second := s.tail.length_tail_of_head (by simp [name])
    cases depth with
    | zero => omega
    | succ depth =>
      have found := ih depth (by have := s.tail.tail.length_tail_le; omega)
      cases constant <;>
        simp_all [Grammar.statement, statementStep, declaration, and_assoc, -bind_pure_comp]
  | @function place s names statements t u keyword name parameters inside ihParams ihBody =>
    intro depth enough
    have first := s.length_tail_of_head (by simp [keyword])
    have second := s.tail.length_tail_of_head (by simp [name])
    have third := parameters.length_le
    simp only [Goal.least] at third
    cases depth with
    | zero => omega
    | succ depth =>
      have found := ihParams depth (by omega)
      have whole := ihBody depth (by omega)
      simp [Grammar.statement, statementStep, Grammar.function, keyword, name, found, whole,
        and_assoc, -bind_pure_comp]
  | @choiceStatement place s node t whole ih =>
    intro depth enough
    cases depth with
    | zero => omega
    | succ depth =>
      have found := ih depth (by omega)
      cases whole with
      | choice keyword =>
        simp [Grammar.statement, statementStep, keyword, found, and_assoc]
  | @retStatement place s node t whole ih =>
    intro depth enough
    cases depth with
    | zero => omega
    | succ depth =>
      have found := ih depth (by omega)
      cases whole with
      | ret keyword => simp [Grammar.statement, statementStep, keyword, found, and_assoc]
  | @expressionStatement place s node t plain whole ih =>
    intro depth enough
    cases depth with
    | zero => omega
    | succ depth =>
      have found := ih.expression whole.length_le depth (by omega)
      exact statementStep_of_expression plain found
  -- A loop spends a round on each of its steps, and its depth stays.
  | @noStatements nested place s stop =>
    intro depth rounds enough more
    cases rounds with
    | zero => omega
    | succ rounds => simp [Parser.statements, stop, and_assoc]
  | @statements nested place s first t rest u going head tail ihHead ihTail =>
    intro depth rounds enough more
    have skipped := s.length_skip_le
    have taken := head.length_le
    simp only [Goal.least] at taken
    cases rounds with
    | zero => omega
    | succ rounds =>
      have found := ihHead depth (by omega)
      have later := ihTail depth rounds (by omega) (by omega)
      simp [Parser.statements, going, found, later, and_assoc, -bind_pure_comp]
  | @body place s statements t opening inside closing ih =>
    intro depth enough
    have taken := s.length_tail_of_head (by simp [opening])
    exact body_ok opening (ih depth depth (by omega) (by omega)) closing
  | @branch place start s condition t statements u opening filled inside closing follow ih ihBody =>
    intro depth enough
    have first := s.length_tail_of_head (by simp [opening])
    have second := inside.length_le
    have third := t.length_tail_of_head (by simp [closing])
    simp only [Goal.least] at second
    have found := ih.expression inside.length_le depth (by omega)
    have later := ihBody depth (by omega)
    simp [Grammar.branch, opening, filled, found, closing, later, and_assoc, -bind_pure_comp]
  | @noAlternative place s end_ =>
    intro depth rounds enough more
    cases rounds with
    | zero => omega
    | succ rounds => simp [Grammar.alternatives, end_, and_assoc]
  | @otherwise place s statements t keyword last follow ih =>
    intro depth rounds enough more
    have taken := s.length_tail_of_head (by simp [keyword])
    cases rounds with
    | zero => omega
    | succ rounds =>
      have found := ih depth (by omega)
      simp [Grammar.alternatives, keyword, last, found, and_assoc, -bind_pure_comp]
  | @elseIf place s first t rest u keyword again head tail ihHead ihTail =>
    intro depth rounds enough more
    have one := s.length_tail_of_head (by simp [keyword])
    have two := s.tail.length_tail_of_head (by simp [again])
    have three := head.length_le
    simp only [Goal.least] at three
    cases rounds with
    | zero => omega
    | succ rounds =>
      have found := ihHead depth (by omega)
      have later := ihTail depth rounds (by omega) (by omega)
      simp [Grammar.alternatives, keyword, again, found, later, and_assoc, -bind_pure_comp]
  | @choice place s first t rest u keyword head tail ihHead ihTail =>
    intro depth enough
    have one := s.length_tail_of_head (by simp [keyword])
    have two := head.length_le
    simp only [Goal.least] at two
    have found := ihHead depth (by omega)
    have later := ihTail depth depth (by omega) (by omega)
    simp [Grammar.choice, found, later, and_assoc, -bind_pure_comp]
  | @ret s value t keyword follow ih =>
    intro depth enough
    have one := s.length_tail_of_head (by simp [keyword])
    have found := ih.expression follow.length_le depth (by omega)
    simp [Grammar.ret, Place.inner, found, and_assoc, -bind_pure_comp]
  -- The operand of a level is a goal of its own on the same tokens, at the same depth.
  | @alone level place s operand t right first end_ ih =>
    intro depth rounds enough more
    have found := ih.operand first.operand_length_le depth enough
    cases rounds with
    | zero => omega
    | succ rounds =>
      simp [Level.parser, right, Parser.rightChain, found, level.prepareParser_ok, end_, and_assoc,
        -bind_pure_comp]
  | @right level place s left t operand u right first sign rest ih ihRest =>
    intro depth rounds enough more
    have found := ih.operand first.operand_length_le depth enough
    have one := first.operand_length_le
    have two := level.length_prepare_le t
    have three := Level.length_tail_of_isOperator sign
    cases rounds with
    | zero => omega
    | succ rounds =>
      have later := ihRest depth rounds (by omega) (by omega)
      simp only [Level.parser, right] at later
      simp_all [Level.parser, Parser.rightChain, level.prepareParser_ok, and_assoc,
        -bind_pure_comp]
  | @left level place s first t result u left head rest ih ihRest =>
    intro depth rounds enough more
    have taken := head.operand_length_le
    have found := ih.operand taken depth enough
    have later := ihRest depth rounds (by omega) (by omega)
    simp [Level.parser, left, found, later, and_assoc]
  | @noMore level place s left end_ =>
    intro depth rounds enough more
    cases rounds with
    | zero => omega
    | succ rounds => simp [Level.moreParser, Parser.leftChain, end_, and_assoc]
  | @more level place s left operand t result u sign next rest ih ihRest =>
    intro depth rounds enough more
    have one := Level.length_tail_of_isOperator sign
    have two := next.operand_length_le
    have found := ih.operand two depth (by omega)
    cases rounds with
    | zero => omega
    | succ rounds =>
      have later := ihRest depth rounds (by omega) (by omega)
      simp only [Level.moreParser] at later
      simp [Level.moreParser, Parser.leftChain, sign, found, later, and_assoc]
  | @object place s entries t opening inside closing ih =>
    intro depth enough
    have one := s.length_tail_of_head (by simp [opening])
    have found := ih depth depth (by omega) (by omega)
    simp [Grammar.simple, Grammar.object, opening, found, closing, and_assoc, -bind_pure_comp]
  | @array place s elements t opening inside ih =>
    intro depth enough
    have one := s.length_tail_of_head (by simp [opening])
    have found := ih depth (by omega)
    simp [Grammar.simple, Grammar.array, opening, found, and_assoc, -bind_pure_comp]
  | @simple place s node t noObject noArray whole ih =>
    intro depth enough
    have one := whole.length_le
    simp only [Goal.least] at one
    have found := ih depth depth enough (by omega)
    exact simple_of_sum noObject noArray found
  | @accessed place s first t node u head rest ih ihRest =>
    intro depth enough
    have one := head.length_le
    simp only [Goal.least] at one
    have found := ih depth enough
    have later := ihRest depth depth (by omega) (by omega)
    simp [Grammar.accessed, found, later, and_assoc]
  | @noAccess place s object noCall noProperty noIndex =>
    intro depth rounds enough more
    cases rounds with
    | zero => omega
    | succ rounds => exact accesses_stop noCall noProperty noIndex
  | @call place s object arguments t node u opening inside rest ih ihRest =>
    intro depth rounds enough more
    have one := s.length_tail_of_head (by simp [opening])
    have two := inside.length_le
    simp only [Goal.least] at two
    cases rounds with
    | zero => omega
    | succ rounds =>
      have found := ih depth (by omega)
      have later := ihRest depth rounds (by omega) (by omega)
      simp [Grammar.accesses, Grammar.call, opening, found, later, and_assoc, -bind_pure_comp]
  | @property place s object node t point key rest ih =>
    intro depth rounds enough more
    have one := s.length_tail_of_head (by simp [point])
    have two := s.tail.length_tail_of_head (by simp [key])
    cases rounds with
    | zero => omega
    | succ rounds =>
      have later := ih depth rounds (by omega) (by omega)
      simp [Grammar.accesses, Grammar.property, point, key, later, and_assoc, -bind_pure_comp]
  | @index place s object key t node u opening inside closing rest ih ihRest =>
    intro depth rounds enough more
    have one := s.length_tail_of_head (by simp [opening])
    have two := inside.length_le
    have three := t.length_tail_of_head (by simp [closing])
    simp only [Goal.least] at two
    cases rounds with
    | zero => omega
    | succ rounds =>
      have found := ih.expression inside.length_le depth (by omega)
      have later := ihRest depth rounds (by omega) (by omega)
      simp [Grammar.accesses, Grammar.index, opening, found, closing, later, and_assoc,
        -bind_pure_comp]
  | @name place s kind =>
    intro depth enough
    simp [Grammar.term, kind, and_assoc, -bind_pure_comp]
  | @number place s value kind reading =>
    intro depth enough
    exact term_of_numeric kind reading
  | @signed place s value sign kind reading =>
    intro depth enough
    rcases sign with sign | sign <;>
      simp [Grammar.term, Grammar.signed, Stream.second, sign, kind, reading, and_assoc]
  | @text place s kind =>
    intro depth enough
    simp [Grammar.term, kind, and_assoc, -bind_pure_comp]
  | @parenthesized place s node t opening inside closing ih =>
    intro depth enough
    have one := s.length_tail_of_head (by simp [opening])
    have found := ih.expression inside.length_le depth (by omega)
    simp [Grammar.term, Grammar.parenthesized, opening, found, closing, and_assoc,
      -bind_pure_comp]
  | @lambda place s names t value u keyword parameters arrow follow ihParams ih =>
    intro depth enough
    have one := s.length_tail_of_head (by simp [keyword])
    have two := parameters.length_le
    have three := t.length_fuse_le [.fatArrow]
    have four := (t.fuse [.fatArrow]).length_tail_of_head (by simp [arrow])
    simp only [Goal.least] at two
    have found := ihParams depth (by omega)
    have later := ih.expression follow.length_le depth (by omega)
    simp [Grammar.term, Grammar.lambda, keyword, found, arrow, later, and_assoc, -bind_pure_comp]
  | @choiceTerm place s node t whole ih =>
    intro depth enough
    have found := ih depth enough
    cases whole with
    | choice keyword => simp [Grammar.term, keyword, found, and_assoc]
  | @retTerm place s node t whole ih =>
    intro depth enough
    have found := ih depth enough
    cases whole with
    | ret keyword => simp [Grammar.term, keyword, found, and_assoc]
  | @del place s keyword name =>
    intro depth enough
    simp [Grammar.term, Grammar.del, keyword, name, and_assoc, -bind_pure_comp]
  | @raise place s keyword message =>
    intro depth enough
    simp [Grammar.term, Grammar.raise, keyword, message, and_assoc, -bind_pure_comp]
  | @item place s only t whole end_ ih =>
    intro depth rounds enough more
    have found := ih.expression whole.length_le depth enough
    cases rounds with
    | zero => omega
    | succ rounds => simp [Parser.commaSeparated, found, end_, and_assoc]
  | @items place s first t rest u head comma tail ih ihTail =>
    intro depth rounds enough more
    have one := head.length_le
    have two := t.length_tail_of_head (by simp [comma])
    have found := ih.expression one depth enough
    simp only [Goal.least] at one
    cases rounds with
    | zero => omega
    | succ rounds =>
      have later := ihTail depth rounds (by omega) (by omega)
      simp [Parser.commaSeparated, found, comma, later, and_assoc, -bind_pure_comp]
  | @empty closing place s at_ =>
    intro depth enough
    simp [Parser.listUpTo, at_, and_assoc, -bind_pure_comp]
  | @list closing place s elements t filled inside at_ ih =>
    intro depth enough
    have found := ih depth depth enough (by omega)
    simp [Parser.listUpTo, filled, found, at_, and_assoc, -bind_pure_comp]
  | @lastName s kind end_ =>
    intro rounds more
    cases rounds with
    | zero => omega
    | succ rounds => simp [Parser.commaSeparated, kind, end_, and_assoc, -bind_pure_comp]
  | @names s rest t kind comma tail ih =>
    intro rounds more
    have one := s.length_tail_of_head (by simp [kind])
    have two := s.tail.length_tail_of_head (by simp [comma])
    cases rounds with
    | zero => omega
    | succ rounds =>
      have later := ih rounds (by omega)
      simp [Parser.commaSeparated, kind, comma, later, and_assoc, -bind_pure_comp]
  | @noParams s opening closing =>
    intro limit enough
    simp [Grammar.params, Parser.listUpTo, opening, closing, and_assoc, -bind_pure_comp]
  | @params s names t opening filled inside closing ih =>
    intro limit enough
    have one := s.length_tail_of_head (by simp [opening])
    have found := ih limit (by omega)
    simp [Grammar.params, Parser.listUpTo, opening, filled, found, closing, and_assoc,
      -bind_pure_comp]
  | @noProperties place s end_ =>
    intro depth rounds enough more
    cases rounds with
    | zero => omega
    | succ rounds => rcases end_ with end_ | end_ <;> simp [Grammar.properties, end_, and_assoc]
  | @short place s rest t key comma tail ih =>
    intro depth rounds enough more
    have one := s.length_tail_of_head (by simp [key])
    have two := s.tail.length_tail_of_head (by simp [comma])
    cases rounds with
    | zero => omega
    | succ rounds =>
      have later := ih depth rounds (by omega) (by omega)
      simp [Grammar.properties, key, comma, later, and_assoc, -bind_pure_comp]
  | @lastShort place s rest t key closing tail ih =>
    intro depth rounds enough more
    have one := s.length_tail_of_head (by simp [key])
    cases rounds with
    | zero => omega
    | succ rounds =>
      have later := ih depth rounds (by omega) (by omega)
      simp [Grammar.properties, key, closing, later, and_assoc, -bind_pure_comp]
  | @valued place s value t rest u key colon follow comma tail ih ihTail =>
    intro depth rounds enough more
    have one := s.length_tail_of_head (by simp [key])
    have two := s.tail.length_tail_of_head (by simp [colon])
    have three := follow.length_le
    have four := t.length_tail_of_head (by simp [comma])
    have found := ih.expression three depth (by omega)
    simp only [Goal.least] at three
    cases rounds with
    | zero => omega
    | succ rounds =>
      have later := ihTail depth rounds (by omega) (by omega)
      simp [Grammar.properties, key, colon, found, comma, later, and_assoc, -bind_pure_comp]
  | @lastValued place s value t rest u key colon follow closing tail ih ihTail =>
    intro depth rounds enough more
    have one := s.length_tail_of_head (by simp [key])
    have two := s.tail.length_tail_of_head (by simp [colon])
    have three := follow.length_le
    have found := ih.expression three depth (by omega)
    simp only [Goal.least] at three
    cases rounds with
    | zero => omega
    | succ rounds =>
      have later := ihTail depth rounds (by omega) (by omega)
      simp [Grammar.properties, key, colon, found, closing, later, and_assoc, -bind_pure_comp]

/-- Statements that the rules read up to an end are a program. -/
theorem program_ok {tokens : List Token} {statements : List Node} {t : Stream}
    (read : Reads (.statements false .outside) (Stream.ofTokens tokens) statements t) :
    Program.parse tokens = .ok (.program
      ⟨(Stream.ofTokens tokens).head.span.start, t.head.span.stop⟩ statements) := by
  have found := read.found (depthFor tokens) (depthFor tokens) (by simp [depthFor, Stream.ofTokens])
    (by simp only [depthFor, Stream.ofTokens]; omega)
  change Parser.statements (fun kind => kind = .eof) _ _ _ = _ at found
  have parsed : program (depthFor tokens) (Stream.ofTokens tokens) = .ok (.program
      ⟨(Stream.ofTokens tokens).head.span.start, t.head.span.stop⟩ statements, t) := by
    simp [program, found, and_assoc, -bind_pure_comp]
  simp [Program.parse, Program.parseWithin, parsed]

/-- A program that parses is what the rules read up to an end. -/
theorem parse_ok_iff {tokens : List Token} {node : Node} :
    Program.parse tokens = .ok node ↔
      ∃ statements t, Reads (.statements false .outside) (Stream.ofTokens tokens) statements t ∧
        node = .program ⟨(Stream.ofTokens tokens).head.span.start, t.head.span.stop⟩ statements := by
  constructor
  · intro parsed
    simp only [Program.parse, Program.parseWithin] at parsed
    cases run : program (depthFor tokens) (Stream.ofTokens tokens) with
    | error stop =>
      obtain ⟨halt, t⟩ := stop
      cases halt <;> simp [run] at parsed
    | ok found =>
      obtain ⟨program, t⟩ := found
      obtain ⟨statements, rfl, read⟩ := program_follows run
      simp only [run, Except.ok.injEq] at parsed
      exact ⟨statements, t, read, parsed.symm⟩
  · rintro ⟨statements, t, read, rfl⟩
    exact program_ok read

end Grammar
end Tide
