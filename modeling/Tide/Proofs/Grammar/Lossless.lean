import Tide.Proofs.Grammar.Completeness
import Tide.Proofs.Grammar.Seen
import Tide.Proofs.Grammar.Transport
import Tide.Proofs.Tree.Leaves
import Tide.Token.Scan

/-!
# A tree keeps the tokens that bear its leaves

Each rule of the grammar takes the tokens of its own leaves in the order in which the tree holds
them, and besides them only punctuation. So the tokens of an accepted program bear the leaves of its
tree, one token for each leaf and in the same order.

## Proof strategy

A rule is read backwards. If the tokens behind it bear some leaves, the tokens in front of it bear
its own leaves and then those. Whatever extends a tree that was read before, an operator with its
operand or an access, adds leaves behind those of that tree.
-/
namespace Tide

namespace Stream

/-- The tokens that are left bear these leaves, whatever stands in front of them. -/
def Bears (s : Stream) (leaves : List Leaf) : Prop := ∀ front, Token.Bear front s.rest leaves

namespace Bears

variable {s : Stream} {leaves : List Leaf}

theorem ended (kind : s.head.kind = .eof) : s.Bears [] := by
  obtain ⟨rest, behind⟩ := s
  cases rest with
  | nil => exact fun front => .nil
  | cons first rest => exact fun front => .ended kind

theorem silent (inside : s.head.kind ≠ .eof) (silent : s.head.kind.bearsLeaf = false)
    (rest : s.tail.Bears leaves) : s.Bears leaves := by
  obtain ⟨tokens, behind⟩ := s
  cases tokens with
  | nil => exact absurd rfl inside
  | cons first tokens => exact fun front => .silent inside silent (rest first)

theorem leaf {leaf : Leaf} (born : ∀ front, leaf.BornBy front s.head)
    (rest : s.tail.Bears leaves) : s.Bears (leaf :: leaves) := by
  obtain ⟨tokens, behind⟩ := s
  cases tokens with
  | nil => exact absurd rfl (born .missingEnd).bearsLeaf.1
  | cons first tokens => exact fun front => .leaf (born front) (rest first)

theorem symbol {symbol : Symbol} (kind : s.head.kind = .symbol symbol)
    (rest : s.tail.Bears leaves) : s.Bears leaves :=
  .silent (by simp [kind]) (by simp [kind, Kind.bearsLeaf]) rest

theorem keyword {word : Keyword} (kind : s.head.kind = .keyword word)
    (rest : s.tail.Bears leaves) : s.Bears (.keyword word :: leaves) :=
  .leaf (fun _ => .keyword kind) rest

theorem name (kind : s.head.kind = .ident) (rest : s.tail.Bears leaves) :
    s.Bears (.name s.head.lexeme :: leaves) :=
  .leaf (fun _ => .name kind) rest

theorem text (kind : s.head.kind = .string) (rest : s.tail.Bears leaves) :
    s.Bears (.text s.head.lexeme :: leaves) :=
  .leaf (fun _ => .text kind) rest

/-- A sign is not a leaf of its own, but the number behind it may be read with it. -/
theorem signed {value : Float} (sign : s.head.kind.isSign = true)
    (kind : s.tail.head.kind.isNumeric = true)
    (reading : Number.read? (s.head.lexeme ++ s.tail.head.lexeme) = some value)
    (rest : s.tail.tail.Bears leaves) : s.Bears (.number value :: leaves) := by
  obtain ⟨tokens, behind⟩ := s
  match tokens with
  | [] => simp [head, Token.missingEnd, Kind.isSign] at sign
  | [first] => simp [head, tail, Token.missingEnd, Kind.isNumeric] at kind
  | first :: second :: tokens =>
    intro front
    have inside : first.kind ≠ .eof := by
      rintro kind
      simp [head, kind, Kind.isSign] at sign
    have silent : first.kind.bearsLeaf = false := by
      obtain same | same : first.kind = .symbol .minus ∨ first.kind = .symbol .plus := by
        simpa [head, Kind.isSign] using sign
      all_goals simp [same, Kind.bearsLeaf]
    exact .silent inside silent (.leaf (.signed sign kind reading) (rest second))

theorem skip (rest : s.skip.Bears leaves) : s.Bears leaves := by
  obtain ⟨tokens, behind⟩ := s
  simp only [Stream.skip] at rest
  induction tokens generalizing behind with
  | nil => exact rest
  | cons first tokens ih =>
    rw [skipWhile] at rest
    split at rest
    next separator =>
      have kind : first.kind = .symbol .semicolon := by simpa using separator
      exact .symbol kind (ih _ rest)
    next => exact rest

/-- Two tokens that are joined bear nothing, and neither of them is a sign. -/
theorem fuse {wanted : List Fused} (rest : (s.fuse wanted).Bears leaves) : s.Bears leaves := by
  obtain same | ⟨first, second, tokens, operator, split, left, right, same⟩ := s.fuse_cases wanted
  · rwa [same] at rest
  · intro front
    rw [same] at rest
    have joined : Token.Bear ⟨.fused operator, first.lexeme ++ second.lexeme,
        first.span.join second.span⟩ tokens leaves := by
      simpa [Token.Bear, Token.bearers, Kind.bearsLeaf] using rest front
    rw [split]
    exact .silent (by simp [left]) (by simp [left, Kind.bearsLeaf])
      (.silent (by simp [right]) (by simp [right, Kind.bearsLeaf])
        (joined.behind (by simp [Kind.isSign]) second))

theorem prepare {level : Grammar.Level} (rest : (level.prepare s).Bears leaves) :
    s.Bears leaves := by
  cases level with
  | comparison => exact rest.fuse
  | _ => exact rest

end Bears
end Stream

namespace Grammar

/-! ### Operators -/

theorem Level.bears_operator {level : Level} {s : Stream} {leaves : List Leaf}
    (sign : level.isOperator s.head.kind = true) (rest : s.tail.Bears leaves) :
    s.Bears (s.head.kind.operatorLeaves ++ leaves) := by
  cases kind : s.head.kind with
  | keyword word => exact .keyword kind rest
  | symbol symbol => exact .symbol kind rest
  | fused operator =>
    exact .silent (by simp [kind]) (by simp [kind, Kind.bearsLeaf]) rest
  | _ =>
    rw [kind] at sign
    cases level <;> cases sign

theorem Level.leaves_combine {level : Level} {operator : Kind}
    (sign : level.isOperator operator = true) (left right : Node) :
    (level.combine operator left right).leaves =
      left.leaves ++ (operator.operatorLeaves ++ right.leaves) := by
  cases level with
  | assignment =>
    obtain rfl : operator = .symbol .assign := by simpa [Level.isOperator] using sign
    simp [Level.combine, Node.leaves, Kind.operatorLeaves]
  | _ => exact Node.leaves_operation ..

/-! ### What each goal keeps -/

def Shape.leaves {shape : Shape} (result : shape.Result) : List Leaf :=
  match shape, result with
  | .node, found => Node.leaves found
  | .nodes, found => leavesAll found
  | .branch, found => Branch.leaves found
  | .branches, found => branchLeaves found.1 ++ otherwiseLeaves found.2
  | .names, found => found.map .name
  | .properties, found => propertyLeaves found

def Goal.Keeps {shape : Shape} (goal : Goal shape) (s : Stream) (result : shape.Result)
    (t : Stream) : Prop :=
  match shape, goal, result with
  | _, .more _ _ left, node | _, .accesses _ left, node =>
    ∃ added, node.leaves = left.leaves ++ added ∧ ∀ more, t.Bears more → s.Bears (added ++ more)
  | _, _, result => ∀ more, t.Bears more → s.Bears (Shape.leaves result ++ more)

theorem Level.keeps_operand {level : Level} {place : Place} {s t : Stream} {node : Node}
    (given : (level.operand place).Keeps s node t) {more : List Leaf} (rest : t.Bears more) :
    s.Bears (node.leaves ++ more) := by
  cases level <;> exact given more rest

theorem Reads.keeps {shape : Shape} {goal : Goal shape} {s t : Stream} {result : shape.Result}
    (read : Reads goal s result t) : goal.Keeps s result t := by
  -- Tokens are put back from the right: first what stands behind the rule, then its parts and
  -- tokens in reverse order.
  induction read with
  | bare marker name separator =>
    intro more rest
    exact .symbol marker (.name name (.symbol separator rest))
  | declare constant marker name sign initial ih =>
    intro more rest
    exact .symbol marker (.name name (.symbol sign (ih more rest)))
  | function keyword name parameters inside ihParameters ihInside =>
    intro more rest
    have behind := ihParameters _ (ihInside more rest)
    rw [← List.append_assoc] at behind
    exact .keyword keyword (.name name behind)
  | choiceStatement whole ih => exact ih
  | retStatement whole ih => exact ih
  | expressionStatement plain whole ih => exact ih
  | noStatements stop => exact fun more rest => rest.skip
  | statements going head tail ihHead ihTail =>
    intro more rest
    have behind := ihHead _ (ihTail more rest)
    rw [← List.append_assoc] at behind
    exact behind.skip
  | body opening inside closing ih =>
    intro more rest
    exact .symbol opening (ih more (.symbol closing rest))
  | branch opening filled inside closing follow ihInside ihFollow =>
    intro more rest
    have behind := ihInside _ (.symbol closing (ihFollow more rest))
    rw [← List.append_assoc] at behind
    exact .symbol opening behind
  | noAlternative end_ => exact fun more rest => rest
  | otherwise keyword last follow ih =>
    intro more rest
    exact .keyword keyword (ih more rest)
  | elseIf keyword again head tail ihHead ihTail =>
    intro more rest
    have behind := ihHead _ (ihTail more rest)
    simpa [Shape.leaves] using Stream.Bears.keyword keyword (.keyword again behind)
  | choice keyword head tail ihHead ihTail =>
    intro more rest
    have behind := ihHead _ (ihTail more rest)
    simpa [Shape.leaves] using Stream.Bears.keyword keyword behind
  | ret keyword follow ih =>
    intro more rest
    exact .keyword keyword (ih more rest)
  | alone right first end_ ih => exact fun more rest => Level.keeps_operand ih rest.prepare
  | right right first sign rest ihFirst ihRest =>
    intro more behind
    have operator := Level.bears_operator sign (ihRest more behind)
    have operand := Level.keeps_operand ihFirst operator.prepare
    simpa [Shape.leaves, Level.leaves_combine sign] using operand
  | left left head rest ihHead ihRest =>
    intro more behind
    obtain ⟨added, leaves, keeps⟩ := ihRest
    have operand := Level.keeps_operand ihHead (keeps more behind)
    rwa [← List.append_assoc, ← leaves] at operand
  | noMore end_ => exact ⟨[], by simp, fun more rest => rest⟩
  | @more level place s left operand t result u sign next rest ihNext ihRest =>
    obtain ⟨added, leaves, keeps⟩ := ihRest
    refine ⟨s.head.kind.operatorLeaves ++ operand.leaves ++ added, ?_, fun more behind => ?_⟩
    · simp [leaves, Level.leaves_combine sign]
    · have operand := Level.bears_operator sign (Level.keeps_operand ihNext (keeps more behind))
      simpa using operand
  | object opening inside closing ih =>
    intro more rest
    exact .symbol opening (ih more (.symbol closing rest))
  | array opening inside ih =>
    intro more rest
    exact .symbol opening (ih more rest)
  | simple noObject noArray whole ih => exact ih
  | accessed head rest ihHead ihRest =>
    intro more behind
    obtain ⟨added, leaves, keeps⟩ := ihRest
    have term := ihHead _ (keeps more behind)
    rwa [← List.append_assoc, Shape.leaves, ← leaves] at term
  | noAccess noCall noProperty noIndex => exact ⟨[], by simp, fun more rest => rest⟩
  | @call place s object arguments t node u opening inside rest ihInside ihRest =>
    obtain ⟨added, leaves, keeps⟩ := ihRest
    refine ⟨leavesAll arguments ++ added, by simp [leaves, Node.leaves], fun more behind => ?_⟩
    rw [List.append_assoc]
    exact .symbol opening (ihInside _ (keeps more behind))
  | @property place s object node t point key rest ih =>
    obtain ⟨added, leaves, keeps⟩ := ih
    refine ⟨.name s.tail.head.lexeme :: added, by simp [leaves, Node.leaves], fun more behind => ?_⟩
    exact .symbol point (.name key (keeps more behind))
  | @index place s object key t node u opening inside closing rest ihInside ihRest =>
    obtain ⟨added, leaves, keeps⟩ := ihRest
    refine ⟨Node.leaves key ++ added, by simp [leaves, Node.leaves], fun more behind => ?_⟩
    rw [List.append_assoc]
    exact .symbol opening (ihInside _ (.symbol closing (keeps more behind)))
  | name kind => exact fun more rest => .name kind rest
  | number kind reading => exact fun more rest => .leaf (fun _ => .number kind reading) rest
  | signed sign kind reading =>
    intro more rest
    exact .signed (by rcases sign with sign | sign <;> simp [sign, Kind.isSign]) kind reading rest
  | text kind => exact fun more rest => .text kind rest
  | parenthesized opening inside closing ih =>
    intro more rest
    exact .symbol opening (ih more (.symbol closing rest))
  | lambda keyword parameters arrow follow ihParameters ihFollow =>
    intro more rest
    -- The arrow was joined of two tokens, and it bears nothing either way.
    have silent := Stream.Bears.silent (by simp [arrow]) (by simp [arrow, Kind.bearsLeaf])
      (ihFollow more rest)
    have behind := ihParameters _ silent.fuse
    rw [← List.append_assoc] at behind
    exact .keyword keyword behind
  | choiceTerm whole ih => exact ih
  | retTerm whole ih => exact ih
  | del keyword name => exact fun more rest => .keyword keyword (.name name rest)
  | raise keyword message => exact fun more rest => .keyword keyword (.text message rest)
  | item whole end_ ih =>
    intro more rest
    simpa [Shape.leaves, leavesAll] using ih more rest
  | items head comma tail ihHead ihTail =>
    intro more rest
    have behind := ihHead _ (.symbol comma (ihTail more rest))
    rwa [← List.append_assoc] at behind
  | empty at_ => exact fun more rest => .symbol at_ rest
  | list filled inside at_ ih => exact fun more rest => ih more (.symbol at_ rest)
  | lastName kind end_ => exact fun more rest => .name kind rest
  | names kind comma tail ih => exact fun more rest => .name kind (.symbol comma (ih more rest))
  | noParams opening closing => exact fun more rest => .symbol opening (.symbol closing rest)
  | params opening filled inside closing ih =>
    intro more rest
    exact .symbol opening (ih more (.symbol closing rest))
  | noProperties end_ => exact fun more rest => rest
  | short key comma tail ih => exact fun more rest => .name key (.symbol comma (ih more rest))
  | lastShort key closing tail ih => exact fun more rest => .name key (ih more rest)
  | valued key colon follow comma tail ihFollow ihTail =>
    intro more rest
    have behind := ihFollow _ (.symbol comma (ihTail more rest))
    rw [← List.append_assoc] at behind
    exact .name key (.symbol colon behind)
  | lastValued key colon follow closing tail ihFollow ihTail =>
    intro more rest
    have behind := ihFollow _ (ihTail more rest)
    rw [← List.append_assoc] at behind
    exact .name key (.symbol colon behind)

end Grammar

/-- The tokens of an accepted list that bear a leaf, up to its first end, are those that the tree
holds: one for each leaf, in the same order. -/
theorem tokens_bear_leaves {tokens : List Token} {program : Node}
    (parsed : Program.parse tokens = .ok program) (front : Token) :
    (Token.bearers front tokens).Forall₂ (fun found leaf => leaf.BornBy found.1 found.2)
      program.leaves := by
  obtain ⟨statements, t, read, rfl⟩ := Grammar.parse_ok_iff.mp parsed
  have ended : t.head.kind = .eof := by simpa [Grammar.stops] using read.stops_of_statements
  have keeps := read.keeps [] (.ended ended)
  rw [List.append_nil] at keeps
  exact keeps front

/-- The tokens of `if \x7bx\x7d (f(-1) and y)`. -/
def guardedCall : List Token := (scan (utf8 "if \x7bx\x7d (f(-1) and y)")).tokens

theorem guardedCall_bears_leaves :
    (Token.bearers .missingEnd guardedCall).map (fun found => found.2.lexeme) =
        [utf8 "if", utf8 "x", utf8 "f", utf8 "1", utf8 "and", utf8 "y"] ∧
      ∃ program, Program.parse guardedCall = .ok program ∧
        (Token.bearers .missingEnd guardedCall).Forall₂
          (fun found leaf => leaf.BornBy found.1 found.2) program.leaves := by
  have accepted : (Program.parse guardedCall).toOption.isSome = true := by decide +kernel
  refine ⟨by decide +kernel, ?_⟩
  cases parsed : Program.parse guardedCall with
  | ok program => exact ⟨program, rfl, tokens_bear_leaves parsed .missingEnd⟩
  | error diagnostic => simp [parsed, Except.toOption] at accepted

end Tide
