import Tide.Proofs.Grammar.Completeness

/-!
# The trees that programs have

Not every tree is the tree of a program. `Grammatical` describes those that are: which node may
stand where, which operators belong to which family, that nothing is left out, and that a `return`
is a statement of a function body or of a choice that is such a statement itself. What names and
numbers look like depends on the tokens, and a `Vocabulary` says as much of both as is needed.
-/
namespace Tide

namespace Grammar

/-- A property of tokens, and what follows from it for the names and numbers read from them. -/
structure Vocabulary where
  token : Token → Prop
  name : Bytes → Prop
  number : Float → Prop
  missingEnd : token .missingEnd
  fused {operator : Fused} {lexeme : Bytes} {span : Span} : token ⟨.fused operator, lexeme, span⟩
  name_of_token {t : Token} : token t → t.kind = .ident → name t.lexeme
  number_of_token {t : Token} {value : Float} : token t → t.kind.isNumeric = true →
    Number.read? t.lexeme = some value → number value
  number_of_signed {sign t : Token} {value : Float} : token sign → token t →
    sign.kind = .symbol .minus ∨ sign.kind = .symbol .plus → t.kind.isNumeric = true →
    Number.read? (sign.lexeme ++ t.lexeme) = some value → number value

/-- Nothing is asked of the tokens, and nothing is known of names and numbers. -/
def Vocabulary.any : Vocabulary where
  token _ := True
  name _ := True
  number _ := True
  missingEnd := trivial
  fused := trivial
  name_of_token _ _ := trivial
  number_of_token _ _ _ := trivial
  number_of_signed _ _ _ _ _ := trivial

/-- The operators of a family. -/
def isOperatorOf : Family → Kind → Bool
  | .arithmetic, kind => isAdditive kind || isMultiplicative kind
  | .comparison, kind => isComparison kind
  | .logical, kind => isLogical kind

/-- What a node is used as. Statements and choices may or may not hold a `return`. -/
inductive Role where
  | statement (returns : Bool)
  | choice (returns : Bool)
  | expression

inductive Grammatical (v : Vocabulary) : Role → Node → Prop where
  | bare {returns span name} (named : v.name name) :
      Grammatical v (.statement returns) (.declare span name false .missing)
  | declare {returns span name constant value} (named : v.name name)
      (initial : Grammatical v (.statement false) value) :
      Grammatical v (.statement returns) (.declare span name constant value)
  | function {returns span name params body} (named : v.name name)
      (parameters : ∀ param ∈ params, v.name param)
      (statements : ∀ node ∈ body, Grammatical v (.statement true) node) :
      Grammatical v (.statement returns) (.function span name params body)
  | ret {span value} (result : Grammatical v .expression value) :
      Grammatical v (.statement true) (.ret span value)
  | ofChoice {returns node} (whole : Grammatical v (.choice returns) node) :
      Grammatical v (.statement returns) node
  | ofExpression {returns node} (whole : Grammatical v .expression node) :
      Grammatical v (.statement returns) node
  | choice {returns span branches otherwise} (filled : branches ≠ [])
      (conditions : ∀ branch ∈ branches, Grammatical v .expression branch.condition)
      (bodies : ∀ branch ∈ branches, ∀ node ∈ branch.body,
        Grammatical v (.statement returns) node)
      (last : ∀ node ∈ otherwise.getD [], Grammatical v (.statement returns) node) :
      Grammatical v (.choice returns) (.choice span branches otherwise)
  | choiceTerm {node} (whole : Grammatical v (.choice false) node) : Grammatical v .expression node
  | lambda {span params value} (parameters : ∀ param ∈ params, v.name param)
      (body : Grammatical v .expression value) :
      Grammatical v .expression (.lambda span params value)
  | del {span name} (named : v.name name) : Grammatical v .expression (.del span name)
  | raise {span message} : Grammatical v .expression (.raise span message)
  | assign {span target value} (left : Grammatical v .expression target)
      (right : Grammatical v .expression value) :
      Grammatical v .expression (.assign span target value)
  | property {span object keySpan key} (inside : Grammatical v .expression object)
      (named : v.name key) :
      Grammatical v .expression (.member span object (.name keySpan key) false)
  | index {span object key} (inside : Grammatical v .expression object)
      (computed : Grammatical v .expression key) :
      Grammatical v .expression (.member span object key true)
  | call {span callee arguments} (head : Grammatical v .expression callee)
      (inputs : ∀ node ∈ arguments, Grammatical v .expression node) :
      Grammatical v .expression (.call span callee arguments)
  | operation {span family operator left right} (belongs : isOperatorOf family operator = true)
      (first : Grammatical v .expression left) (second : Grammatical v .expression right) :
      Grammatical v .expression (.operation span family operator left right)
  | name {span name} (named : v.name name) : Grammatical v .expression (.name span name)
  | number {span value width} (read : v.number value) :
      Grammatical v .expression (.number span value width)
  | text {span value} : Grammatical v .expression (.text span value (Utf8.count value))
  | array {span elements} (inside : ∀ node ∈ elements, Grammatical v .expression node) :
      Grammatical v .expression (.array span elements)
  | object {span properties} (keys : ∀ entry ∈ properties, v.name entry.key)
      (values : ∀ entry ∈ properties, entry.value.isMissing = false →
        Grammatical v .expression entry.value) :
      Grammatical v .expression (.object span properties)

/-! ### Tokens along a stream -/

namespace Vocabulary

/-- Every token left is in the vocabulary. -/
def Covers (v : Vocabulary) (s : Stream) : Prop := ∀ t ∈ s.rest, v.token t

variable {v : Vocabulary} {s : Stream}

theorem Covers.head (covered : v.Covers s) : v.token s.head := by
  obtain ⟨rest, behind⟩ := s
  cases rest with
  | nil => exact v.missingEnd
  | cons first rest => exact covered first List.mem_cons_self

theorem Covers.tail (covered : v.Covers s) : v.Covers s.tail := by
  obtain ⟨rest, behind⟩ := s
  cases rest with
  | nil => exact covered
  | cons first rest => exact fun t member => covered t (List.mem_cons_of_mem _ member)

theorem Covers.fuse (covered : v.Covers s) (wanted : List Fused) : v.Covers (s.fuse wanted) := by
  obtain same | ⟨first, second, rest, operator, tokens, -, -, same⟩ := s.fuse_cases wanted
  · rwa [same]
  · rw [same]
    intro t member
    rcases List.mem_cons.mp member with rfl | member
    · exact v.fused
    · exact covered t (by simp [tokens, member])

theorem Covers.takes {n : Nat} {t : Stream} (covered : v.Covers s) (takes : s.Takes n t) :
    v.Covers t :=
  takes.keeps (fun _ _ covered => covered.tail) (fun wanted _ covered => covered.fuse wanted)
    covered

theorem Covers.skip (covered : v.Covers s) : v.Covers s.skip := covered.takes s.takes_skip

theorem Covers.prepare (covered : v.Covers s) (level : Level) : v.Covers (level.prepare s) :=
  covered.takes (level.takes_prepare s)

end Vocabulary

variable {v : Vocabulary}

theorem Reads.covers {shape : Shape} {goal : Goal shape} {s t : Stream} {result : shape.Result}
    (read : Reads goal s result t) (covered : v.Covers s) : v.Covers t :=
  covered.takes read.takes

/-! ### Every tree that is read is grammatical -/

/-- Whether a `return` may be a statement here. -/
def returns : Place → Bool
  | .functionBody => true
  | .outside | .nested => false

theorem returns_inner (place : Place) : returns place.inner = false := by
  cases place <;> rfl

/-- What is known of the result of a goal. An expression is never read where a `return` may stand,
and operators and accesses extend an expression that is there already. -/
def Goal.Yields (v : Vocabulary) {shape : Shape} (goal : Goal shape) (result : shape.Result) :
    Prop :=
  match shape, goal, result with
  | _, .statement place, node => Grammatical v (.statement (returns place)) node
  | _, .statements _ place, nodes | _, .body place, nodes =>
    ∀ node ∈ nodes, Grammatical v (.statement (returns place)) node
  | _, .branch place _, found =>
    Grammatical v .expression found.condition ∧
      ∀ node ∈ found.body, Grammatical v (.statement (returns place)) node
  | _, .alternatives place, (branches, otherwise) =>
    (∀ branch ∈ branches, Grammatical v .expression branch.condition) ∧
      (∀ branch ∈ branches, ∀ node ∈ branch.body,
        Grammatical v (.statement (returns place)) node) ∧
      ∀ node ∈ otherwise.getD [], Grammatical v (.statement (returns place)) node
  | _, .choice place, node => Grammatical v (.choice (returns place)) node
  | _, .ret place, node => returns place = true ∧ Grammatical v (.statement true) node
  | _, .chain _ place, node | _, .simple place, node | _, .accessed place, node
  | _, .term place, node => returns place = false → Grammatical v .expression node
  | _, .more _ place first, node | _, .accesses place first, node =>
    returns place = false → Grammatical v .expression first → Grammatical v .expression node
  | _, .items place, nodes | _, .list _ place, nodes =>
    returns place = false → ∀ node ∈ nodes, Grammatical v .expression node
  | _, .names, found | _, .params, found => ∀ name ∈ found, v.name name
  | _, .properties place, entries =>
    returns place = false → ∀ entry ∈ entries, v.name entry.key ∧
      (entry.value.isMissing = false → Grammatical v .expression entry.value)

theorem Grammatical.combine {level : Level} {operator : Kind} {left right : Node}
    (sign : level.isOperator operator = true) (first : Grammatical v .expression left)
    (second : Grammatical v .expression right) :
    Grammatical v .expression (level.combine operator left right) := by
  cases level with
  | assignment => exact .assign first second
  | sum => exact .operation (by simp_all [isOperatorOf, Level.isOperator]) first second
  | product => exact .operation (by simp_all [isOperatorOf, Level.isOperator]) first second
  | logical => exact .operation sign first second
  | comparison => exact .operation sign first second

theorem Level.yields_operand {level : Level} {place : Place} {node : Node}
    (given : (level.operand place).Yields v node) (plain : returns place = false) :
    Grammatical v .expression node := by
  cases level <;> simpa [Goal.Yields, operand, plain] using given

theorem Reads.yields {shape : Shape} {goal : Goal shape} {s t : Stream} {result : shape.Result}
    (read : Reads goal s result t) (covered : v.Covers s) : goal.Yields v result := by
  -- On the derivation, with every part read in a stream that the vocabulary still covers.
  induction read with
  | bare marker name separator => exact Grammatical.bare (v.name_of_token covered.tail.head name)
  | declare constant marker name sign initial ih =>
    have value := ih covered.tail.tail.tail
    rw [Goal.Yields, returns_inner] at value
    exact Grammatical.declare (v.name_of_token covered.tail.head name) value
  | function keyword name parameters inside ihParams ih =>
    exact Grammatical.function (v.name_of_token covered.tail.head name) (ihParams covered.tail.tail)
      (ih (parameters.covers covered.tail.tail))
  | choiceStatement whole ih => exact Grammatical.ofChoice (ih covered)
  | retStatement whole ih =>
    obtain ⟨allowed, node⟩ := ih covered
    rw [Goal.Yields, allowed]
    exact node
  | @expressionStatement place s node t plain whole ih =>
    exact Grammatical.ofExpression (ih covered (returns_inner place))
  | noStatements stop => simp [Goal.Yields]
  | statements going head tail ihHead ihTail =>
    intro node member
    rcases List.mem_cons.mp member with rfl | member
    · exact ihHead covered.skip
    · exact ihTail (head.covers covered.skip) node member
  | body opening inside closing ih => exact ih covered.tail
  | @branch place start s condition t statements u opening filled inside closing follow ih ihBody =>
    exact ⟨ih covered.tail (returns_inner place), ihBody (inside.covers covered.tail).tail⟩
  | noAlternative end_ => simp [Goal.Yields]
  | otherwise keyword last follow ih =>
    exact ⟨by simp, by simp, ih covered.tail⟩
  | elseIf keyword again head tail ihHead ihTail =>
    have first := ihHead covered.tail.tail
    obtain ⟨conditions, bodies, last⟩ := ihTail (head.covers covered.tail.tail)
    exact ⟨List.forall_mem_cons.mpr ⟨first.1, conditions⟩,
      List.forall_mem_cons.mpr ⟨first.2, bodies⟩, last⟩
  | choice keyword head tail ihHead ihTail =>
    have first := ihHead covered.tail
    obtain ⟨conditions, bodies, last⟩ := ihTail (head.covers covered.tail)
    exact Grammatical.choice (by simp) (List.forall_mem_cons.mpr ⟨first.1, conditions⟩)
      (List.forall_mem_cons.mpr ⟨first.2, bodies⟩) last
  -- Only the body of a function has this rule, so the place is known here.
  | ret keyword follow ih => exact ⟨rfl, .ret (ih covered.tail rfl)⟩
  | alone right first end_ ih => exact Level.yields_operand (ih covered)
  | @right level place s left t operand u right first sign rest ih ihRest =>
    intro plain
    have prepared := (first.covers covered).prepare level
    exact .combine sign (Level.yields_operand (ih covered) plain) (ihRest prepared.tail plain)
  | left left head rest ih ihRest =>
    intro plain
    exact ihRest (head.covers covered) plain (Level.yields_operand (ih covered) plain)
  -- What is read so far is passed along: a chain that ends gives it back as it is.
  | noMore end_ => exact fun _ first => first
  | more sign next rest ih ihRest =>
    intro plain first
    exact ihRest (next.covers covered.tail) plain
      (.combine sign first (Level.yields_operand (ih covered.tail) plain))
  | object opening inside closing ih =>
    intro plain
    have entries := ih covered.tail plain
    exact .object (fun entry member => (entries entry member).1)
      (fun entry member => (entries entry member).2)
  | array opening inside ih => exact fun plain => .array (ih covered.tail plain)
  | simple noObject noArray whole ih => exact ih covered
  | accessed head rest ih ihRest =>
    exact fun plain => ihRest (head.covers covered) plain (ih covered plain)
  | noAccess => exact fun _ first => first
  | call opening inside rest ih ihRest =>
    intro plain first
    exact ihRest (inside.covers covered.tail) plain (.call first (ih covered.tail plain))
  | property point key rest ih =>
    intro plain first
    exact ih covered.tail.tail plain (.property first (v.name_of_token covered.tail.head key))
  | index opening inside closing rest ih ihRest =>
    intro plain first
    exact ihRest (inside.covers covered.tail).tail plain (.index first (ih covered.tail plain))
  | name kind => exact fun _ => .name (v.name_of_token covered.head kind)
  | number kind reading => exact fun _ => .number (v.number_of_token covered.head kind reading)
  | signed sign kind reading =>
    exact fun _ => .number (v.number_of_signed covered.head covered.tail.head sign kind reading)
  | text kind => exact fun _ => .text
  | parenthesized opening inside closing ih => exact ih covered.tail
  | lambda keyword parameters arrow follow ihParams ih =>
    have arrowed := (parameters.covers covered.tail).fuse [.fatArrow]
    exact fun _ => .lambda (ihParams covered.tail) (ih arrowed.tail rfl)
  | choiceTerm whole ih =>
    intro plain
    have node := ih covered
    rw [Goal.Yields, plain] at node
    exact .choiceTerm node
  | retTerm whole ih =>
    intro plain
    simp [(ih covered).1] at plain
  | del keyword name => exact fun _ => .del (v.name_of_token covered.tail.head name)
  | raise keyword message => exact fun _ => .raise
  | item whole end_ ih =>
    intro plain
    simpa [Goal.Yields] using ih covered plain
  | items head comma tail ih ihTail =>
    intro plain
    exact List.forall_mem_cons.mpr
      ⟨ih covered plain, ihTail (head.covers covered).tail plain⟩
  | empty => simp [Goal.Yields]
  | list filled inside at_ ih => exact ih covered
  | lastName kind end_ => simpa [Goal.Yields] using v.name_of_token covered.head kind
  | names kind comma tail ih =>
    exact List.forall_mem_cons.mpr
      ⟨v.name_of_token covered.head kind, ih covered.tail.tail⟩
  | noParams => simp [Goal.Yields]
  | params opening filled inside closing ih => exact ih covered.tail
  | noProperties => simp [Goal.Yields]
  | short key comma tail ih =>
    intro plain
    exact List.forall_mem_cons.mpr
      ⟨⟨v.name_of_token covered.head key, by simp [Property.value, Node.isMissing]⟩,
        ih covered.tail.tail plain⟩
  | lastShort key closing tail ih =>
    intro plain
    exact List.forall_mem_cons.mpr
      ⟨⟨v.name_of_token covered.head key, by simp [Property.value, Node.isMissing]⟩,
        ih covered.tail plain⟩
  | valued key colon follow comma tail ih ihTail =>
    intro plain
    exact List.forall_mem_cons.mpr
      ⟨⟨v.name_of_token covered.head key, fun _ => ih covered.tail.tail plain⟩,
        ihTail (follow.covers covered.tail.tail).tail plain⟩
  | lastValued key colon follow closing tail ih ihTail =>
    intro plain
    exact List.forall_mem_cons.mpr
      ⟨⟨v.name_of_token covered.head key, fun _ => ih covered.tail.tail plain⟩,
        ihTail (follow.covers covered.tail.tail) plain⟩

/-- A program that parses is a list of grammatical statements. -/
theorem grammatical_of_parse {tokens : List Token} {node : Node}
    (parsed : Program.parse tokens = .ok node) (covered : ∀ t ∈ tokens, v.token t) :
    ∃ span statements, node = .program span statements ∧
      ∀ statement ∈ statements, Grammatical v (.statement false) statement := by
  obtain ⟨statements, t, read, rfl⟩ := parse_ok_iff.mp parsed
  exact ⟨_, statements, rfl, read.yields covered⟩

end Grammar
end Tide
