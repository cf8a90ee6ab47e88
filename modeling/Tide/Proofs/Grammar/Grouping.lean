import Tide.Proofs.Grammar.Formulas
import Tide.Proofs.Grammar.Recovery
import Tide.Token.Scan

/-!
# Formulas are read as their trees

A formula in front of something that ends an expression is read as its tree.

## Proof strategy

Each level of the grammar reads rows whose operators are at least as tight. The tightest level reads
single operands. A level that groups from the right splits a row at its first operator: the left
side is one operand of the level, and the right side a shorter row. A level that groups from the
left splits it at its last operator, and what has been read of the left side can still be extended.
In both cases the side without operators of the level is a row of the next tighter one.
-/
namespace Tide

namespace Grammar

/-! ### What stands behind a row -/

/-- What may stand behind a row whose operators all have at least this rank. -/
inductive EndsRow (rank : Nat) : List Word → Prop where
  | ended {words : List Word} (last : ∀ w ∈ words.head?, w.kind = .eof) : EndsRow rank words
  | closing {w : Word} {words : List Word} (closed : closes w.kind = true) :
      EndsRow rank (w :: words)
  | operator {operator : Operator} {words : List Word} (looser : operator.level.rank < rank)
      (start : Begins startsExpression words) : EndsRow rank (.fixed operator.kind :: words)

theorem eof_of_at {t : Stream} {words : List Word} (behind : t.At words)
    (last : ∀ w ∈ words.head?, w.kind = .eof) : t.head.kind = .eof := by
  cases words with
  | nil =>
    obtain ⟨rest, place⟩ := t
    cases behind
    rfl
  | cons w words =>
    have kind : w.kind = .eof := last w (by simp)
    rw [(behind.take (by rw [kind]; rfl)).1, kind]

theorem settled_of_eof (level : Level) {t : Stream} (kind : t.head.kind = .eof) :
    level.Settled t := by
  have prepared : level.prepare t = t := by
    cases level with
    | comparison =>
      obtain same | ⟨first, second, rest, operator, tokens, left, -, -⟩ :=
        t.fuse_cases comparisonPairs
      · exact same
      · simp [Stream.head, tokens, left] at kind
    | _ => rfl
  refine ⟨prepared, ?_⟩
  rw [kind]
  cases level <;> rfl

namespace EndsRow

variable {rank : Nat} {more : List Word} {t : Stream}

theorem mono (ends : EndsRow rank more) {other : Nat} (le : rank ≤ other) :
    EndsRow other more := by
  cases ends with
  | ended last => exact .ended last
  | closing closed => exact .closing closed
  | operator looser start => exact .operator (looser.trans_le le) start

theorem settled (ends : EndsRow rank more) (behind : t.At more) (level : Level)
    (le : rank ≤ level.rank) : level.Settled t := by
  cases ends with
  | ended last => exact settled_of_eof level (eof_of_at behind last)
  | closing closed => exact settled_of_closes level behind closed
  | @operator operator _ looser start =>
    exact (operator_of_at _ behind operator.isOperator_kind start).2.2 level (looser.trans_le le)

theorem noAccess (ends : EndsRow rank more) (behind : t.At more) (place : Place)
    (node : Node) : Reads (.accesses place node) t node t := by
  cases ends with
  | ended last =>
    have kind := eof_of_at behind last
    exact .noAccess (by simp [kind]) (by simp [kind]) (by simp [kind])
  | closing closed => exact .noAccess_of_closes behind closed node
  | @operator operator _ looser start =>
    exact .noAccess_of_operator _ behind operator.isOperator_kind node

end EndsRow

end Grammar

/-! ### Rows of operands that can be read -/

/-- Wherever the words of the operand are next, they are read as a term with its tree. -/
structure Operand.Readable (operand : Operand) : Prop where
  begins : Grammar.Begins Grammar.startsOperand operand.words
  term : ∀ place more (s : Stream), s.At (operand.words ++ more) →
    ∃ node t, Grammar.Reads (.term place) s node t ∧ node.unplaced = operand.tree ∧ t.At more

namespace Row

def Readable : Row → Prop
  | .single only => only.Readable
  | .chain first _ rest => first.Readable ∧ rest.Readable

theorem readable_join {left right : Row} {operator : Operator} :
    (left.join operator right).Readable ↔ left.Readable ∧ right.Readable := by
  induction left with
  | single only => rfl
  | chain first inner rest ih => simp [join, Readable, ih, and_assoc]

theorem Readable.begins {row : Row} (readable : row.Readable) :
    Grammar.Begins Grammar.startsOperand row.words := by
  cases row with
  | single only => exact Operand.Readable.begins readable
  | chain first operator rest => exact readable.1.begins.append _

end Row

namespace Grammar

/-- The goal reads rows whose operators all have at least this rank. -/
def ReadsRows (goal : Place → Goal .node) (rank : Nat) : Prop :=
  ∀ ⦃row : Row⦄, row.Readable → (∀ o ∈ row.operators, rank ≤ o.level.rank) →
    ∀ ⦃more : List Word⦄, EndsRow rank more → ∀ place (s : Stream), s.At (row.words ++ more) →
      ∃ node t, Reads (goal place) s node t ∧ node.unplaced = row.tree ∧ t.At more

theorem rank_le (level : Level) : level.rank ≤ 4 := by cases level <;> decide

theorem readsRows_accessed : ReadsRows .accessed 5 := by
  intro row readable tight more ends place s here
  cases row with
  | single only =>
    obtain ⟨node, t, read, same, behind⟩ := Operand.Readable.term readable place more s here
    exact ⟨node, t, .accessed read (ends.noAccess behind place node),
      same.trans (Row.tree_single only).symm, behind⟩
  | chain first operator rest =>
    -- No operator is that tight.
    have tightest := tight operator (by simp [Row.operators])
    have bound := rank_le operator.level
    omega

section

variable {level : Level} (operands : ReadsRows (fun place => level.operand place) (level.rank + 1))

/-- A row without operators of the level is an operand of it. -/
theorem tighter_of_ne {row : Row} (tight : ∀ o ∈ row.operators, level.rank ≤ o.level.rank)
    (others : ∀ o ∈ row.operators, o.level ≠ level) :
    ∀ o ∈ row.operators, level.rank + 1 ≤ o.level.rank := by
  intro o member
  have le := tight o member
  have ne : o.level.rank ≠ level.rank := by
    intro same
    refine others o member ?_
    revert same
    cases o.level <;> cases level <;> simp [Level.rank]
  omega

/-- What the two sides of a split row have from the whole. -/
structure Divides (level : Level) (row left : Row) (operator : Operator) (right : Row) : Prop where
  readableLeft : left.Readable
  readableRight : right.Readable
  tightLeft : ∀ o ∈ left.operators, level.rank ≤ o.level.rank
  tightRight : ∀ o ∈ right.operators, level.rank ≤ o.level.rank
  shorterLeft : left.operators.length < row.operators.length
  shorterRight : right.operators.length < row.operators.length
  words : row.words = left.words ++ .fixed operator.kind :: right.words
  tree : row.tree = operator.apply left.tree right.tree

theorem divides_of_splitAt {row left right : Row} {operator : Operator} (readable : row.Readable)
    (tight : ∀ o ∈ row.operators, level.rank ≤ o.level.rank)
    (found : row.splitAt level = some (left, operator, right)) :
    Divides level row left operator right := by
  have tree := Row.tree_of_split (Row.split_of_splitAt tight found)
  obtain ⟨rfl, -⟩ := Row.splitAt_some found
  obtain ⟨readableLeft, readableRight⟩ := Row.readable_join.mp readable
  simp only [Row.operators_join, List.forall_mem_append, List.forall_mem_cons] at tight
  refine ⟨readableLeft, readableRight, tight.1, tight.2.2, ?_, ?_, Row.words_join .., tree⟩ <;>
  · rw [Row.operators_join, List.length_append, List.length_cons]
    omega

include operands

theorem readsRows_right (right : level.groupsLeft = false) :
    ReadsRows (fun place => .chain level place) level.rank := by
  intro row readable tight more ends place s here
  induction size : row.operators.length using Nat.strong_induction_on generalizing row s with
  | _ size ih =>
    cases found : row.splitFirst level with
    | none =>
      obtain ⟨node, t, read, same, behind⟩ := operands readable
        (tighter_of_ne tight (Row.splitFirst_none found)) (ends.mono (Nat.le_succ _)) place s here
      exact ⟨node, t, read.settle level (ends.settled behind level le_rfl), same, behind⟩
    | some parts =>
      obtain ⟨left, operator, rest⟩ := parts
      have sides := divides_of_splitAt readable tight (by simpa [Row.splitAt, right] using found)
      obtain ⟨-, rfl, others⟩ := Row.splitFirst_some found
      rw [sides.words, List.append_assoc, List.cons_append] at here
      have start := (sides.readableRight.begins.append more).mono expression_of_operand
      -- The left side has no operator of the level, the right side is shorter.
      obtain ⟨first, t, readFirst, sameFirst, behind⟩ := operands sides.readableLeft
        (tighter_of_ne sides.tightLeft others) (.operator (Nat.lt_succ_self _) start) place s here
      obtain ⟨kind, after, -⟩ := operator_of_at _ behind operator.isOperator_kind start
      obtain ⟨second, u, readSecond, sameSecond, last⟩ :=
        ih _ (size ▸ sides.shorterRight) sides.readableRight sides.tightRight _ after rfl
      have chain := Reads.right right readFirst (by rw [kind]; exact operator.isOperator_kind)
        readSecond
      rw [kind] at chain
      refine ⟨_, u, chain, ?_, last⟩
      rw [operator.unplaced_combine, sameFirst, sameSecond, sides.tree]

/-- What is read of a row can still be extended by operators of the level. -/
theorem extends_rows (left : level.groupsLeft = true) {row : Row} (readable : row.Readable)
    (tight : ∀ o ∈ row.operators, level.rank ≤ o.level.rank) {more : List Word}
    (ends : EndsRow (level.rank + 1) more) (place : Place) {s : Stream}
    (here : s.At (row.words ++ more)) :
    ∃ node t, (∀ result u, Reads (.more level place node) t result u →
        Reads (.chain level place) s result u) ∧ node.unplaced = row.tree ∧ t.At more := by
  induction size : row.operators.length using Nat.strong_induction_on generalizing row more with
  | _ size ih =>
    cases found : row.splitLast level with
    | none =>
      obtain ⟨node, t, read, same, behind⟩ := operands readable
        (tighter_of_ne tight (Row.splitLast_none found)) ends place s here
      exact ⟨node, t, fun result u rest => .left left read rest, same, behind⟩
    | some parts =>
      obtain ⟨front, operator, last⟩ := parts
      have sides := divides_of_splitAt readable tight (by simpa [Row.splitAt, left] using found)
      obtain ⟨-, rfl, others⟩ := Row.splitLast_some found
      rw [sides.words, List.append_assoc, List.cons_append] at here
      have start := (sides.readableRight.begins.append more).mono expression_of_operand
      -- Here the left side is shorter, and the right side has no operator of the level.
      obtain ⟨first, t, extend, sameFirst, behind⟩ := ih _ (size ▸ sides.shorterLeft)
        sides.readableLeft sides.tightLeft (.operator (Nat.lt_succ_self _) start) here rfl
      obtain ⟨kind, after, -⟩ := operator_of_at _ behind operator.isOperator_kind start
      -- Nothing is joined in front of an operator that groups from the left.
      have prepared : operator.level.prepare t = t := by
        cases same : operator.level <;> simp [same, Level.groupsLeft] at left <;> rfl
      rw [prepared] at kind after
      obtain ⟨second, u, readSecond, sameSecond, ended⟩ := operands sides.readableRight
        (tighter_of_ne sides.tightRight others) ends place t.tail after
      refine ⟨operator.level.combine operator.kind first second, u, fun result v rest => ?_, ?_,
        ended⟩
      · rw [← kind] at rest
        exact extend result v
          (.more (by rw [kind]; exact operator.isOperator_kind) readSecond rest)
      · rw [operator.unplaced_combine, sameFirst, sameSecond, sides.tree]

theorem readsRows_chain : ReadsRows (fun place => .chain level place) level.rank := by
  cases left : level.groupsLeft with
  | false => exact readsRows_right operands left
  | true =>
    intro row readable tight more ends place s here
    obtain ⟨node, t, extend, same, behind⟩ := extends_rows operands left readable tight
      (ends.mono (Nat.le_succ _)) place here
    have settled := ends.settled behind level le_rfl
    exact ⟨node, t, extend node t (.noMore settled.2), same, behind⟩

end

theorem readsRows_sum : ReadsRows (fun place => .chain .sum place) 1 := by
  have comparison := @readsRows_chain .comparison readsRows_accessed
  have logical := @readsRows_chain .logical comparison
  have product := @readsRows_chain .product logical
  exact @readsRows_chain .sum product

theorem readsRows_expression : ReadsRows (fun place => .expression place) 0 := by
  have simple : ReadsRows .simple 1 := by
    intro row readable tight more ends place s here
    obtain ⟨noObject, noArray⟩ := readable.begins.noLiteral here
    obtain ⟨node, t, read, same, behind⟩ := readsRows_sum readable tight ends place s here
    exact ⟨node, t, .simple noObject noArray read, same, behind⟩
  exact @readsRows_chain .assignment simple

end Grammar

/-! ### Atoms -/

theorem Operand.Readable.name (name : Bytes) :
    Operand.Readable ⟨[.ident name], .name .zero name⟩ where
  begins := ⟨_, _, rfl, rfl⟩
  term place more s here := by
    obtain ⟨kind, lexeme, behind⟩ := Stream.At.ident here
    exact ⟨_, s.tail, .name kind, by simp [Node.unplaced, Node.forget, lexeme], behind⟩

theorem Operand.Readable.text (value : Bytes) :
    Operand.Readable ⟨[.text value], .text .zero value (Utf8.count value)⟩ where
  begins := ⟨_, _, rfl, rfl⟩
  term place more s here := by
    obtain ⟨kind, lexeme, behind⟩ := Stream.At.text here
    exact ⟨_, s.tail, .text kind, by simp [Node.unplaced, Node.forget, lexeme], behind⟩

theorem startsOperand_of_isNumeric {kind : Kind} (numeric : kind.isNumeric = true) :
    Grammar.startsOperand kind = true ∧ kind.isPair = false := by
  cases kind <;> first | exact ⟨rfl, rfl⟩ | cases numeric

theorem Operand.Readable.number (literal : Literal) :
    Operand.Readable ⟨literal.words, .number .zero literal.value literal.text.length⟩ := by
  obtain ⟨sign, digits, value, numeric, reading⟩ := literal
  obtain ⟨start, single⟩ := startsOperand_of_isNumeric numeric
  -- A sign is a token of its own, and the number behind it is read together with it.
  cases sign with
  | none =>
    refine ⟨⟨_, _, rfl, start⟩, fun place more s here => ?_⟩
    obtain ⟨kind, lexeme, behind⟩ := Stream.At.take here single
    have reads : Grammar.Reads (.term place) s (.number s.head.span value s.head.lexeme.length)
        s.tail := .number (by rw [kind, numeric]) (by simpa [Sign.words, lexeme] using reading)
    exact ⟨_, s.tail, reads, by simp [Node.unplaced, Node.forget, Literal.text, Literal.words,
      Sign.words, lexeme], behind⟩
  | some sign =>
    refine ⟨⟨_, _, rfl, by cases sign <;> rfl⟩, fun place more s here => ?_⟩
    obtain ⟨kind, lexeme, behind⟩ := Stream.At.take here rfl
    obtain ⟨kind', lexeme', after⟩ := Stream.At.take behind single
    have signs : s.head.kind = .symbol .minus ∨ s.head.kind = .symbol .plus := by
      rw [kind]
      cases sign with
      | plus => exact .inr rfl
      | minus => exact .inl rfl
    have reads : Grammar.Reads (.term place) s (.number (s.head.span.join s.tail.head.span) value
        (s.head.lexeme ++ s.tail.head.lexeme).length) s.tail.tail :=
      .signed signs (by rw [kind', numeric]) (by simpa [Sign.words, lexeme, lexeme'] using reading)
    exact ⟨_, s.tail.tail, reads, by simp [Node.unplaced, Node.forget, Literal.text,
      Literal.words, Sign.words, lexeme, lexeme'], after⟩

/-- Parentheses leave nothing in the tree. -/
theorem Operand.Readable.group {row : Row} (readable : row.Readable) :
    Operand.Readable ⟨Word.body row.words, row.tree⟩ where
  begins := ⟨_, _, rfl, rfl⟩
  term place more s here := by
    simp only [Word.body, List.cons_append, List.append_assoc] at here
    obtain ⟨opening, inside⟩ := here.mark
    obtain ⟨node, t, read, same, behind⟩ := Grammar.readsRows_expression readable
      (fun _ _ => Nat.zero_le _) (.closing rfl) place s.tail inside
    obtain ⟨closing, after⟩ := behind.mark
    exact ⟨node, t.tail, .parenthesized opening read closing, same, after⟩

/-! ### Formulas -/

mutual

theorem Atom.readable : ∀ atom : Atom, atom.operand.Readable
  | .name name => .name name
  | .text value => .text value
  | .number literal => .number literal
  | .group inside => .group inside.readable

theorem Formula.readable : ∀ formula : Formula, formula.row.Readable
  | .atom only => only.readable
  | .chain first _ rest => ⟨first.readable, rest.readable⟩

end

/-- A formula in front of a separator or of the end is read as its tree, wherever it stands. -/
theorem expression_of_formula {formula : Formula} {s : Stream} {more : List Word}
    (here : s.At (formula.words ++ more))
    (ended : ∀ w ∈ more.head?, w.kind = .symbol .semicolon ∨ w.kind = .eof) (place : Place)
    {depth : Nat} (deep : Grammar.depthFor s.rest ≤ depth) :
    ∃ node t, Grammar.expression depth place s = .ok (node, t) ∧
      node.unplaced = formula.tree ∧ t.At more := by
  have ends : Grammar.EndsRow 0 more := by
    cases more with
    | nil => exact .ended (by simp)
    | cons w more =>
      obtain separator | last := ended w (by simp)
      · exact .closing (by rw [separator]; rfl)
      · exact .ended (by simpa using last)
  obtain ⟨node, t, read, same, behind⟩ := Grammar.readsRows_expression formula.readable
    (fun _ _ => Nat.zero_le _) ends place s here
  unfold Grammar.depthFor at deep
  exact ⟨node, t, read.found.expression read.length_le depth (by omega), same, behind⟩

/-- The formula `a - b - (c) <= d`. -/
def mixedDifference : Formula :=
  .chain (.name (utf8 "a")) .minus (.chain (.name (utf8 "b")) .minus
    (.chain (.group (.atom (.name (utf8 "c")))) .lte (.atom (.name (utf8 "d")))))

/-- The tokens of `a-b-(c)<=d;`. -/
def mixedTokens : List Token :=
  [⟨.ident, utf8 "a", ⟨⟨0, 1, 1⟩, ⟨1, 1, 2⟩⟩⟩,
    ⟨.symbol .minus, utf8 "-", ⟨⟨1, 1, 2⟩, ⟨2, 1, 3⟩⟩⟩,
    ⟨.ident, utf8 "b", ⟨⟨2, 1, 3⟩, ⟨3, 1, 4⟩⟩⟩,
    ⟨.symbol .minus, utf8 "-", ⟨⟨3, 1, 4⟩, ⟨4, 1, 5⟩⟩⟩,
    ⟨.symbol .lparen, utf8 "(", ⟨⟨4, 1, 5⟩, ⟨5, 1, 6⟩⟩⟩,
    ⟨.ident, utf8 "c", ⟨⟨5, 1, 6⟩, ⟨6, 1, 7⟩⟩⟩,
    ⟨.symbol .rparen, utf8 ")", ⟨⟨6, 1, 7⟩, ⟨7, 1, 8⟩⟩⟩,
    ⟨.symbol .lt, utf8 "<", ⟨⟨7, 1, 8⟩, ⟨8, 1, 9⟩⟩⟩,
    ⟨.symbol .assign, utf8 "=", ⟨⟨8, 1, 9⟩, ⟨9, 1, 10⟩⟩⟩,
    ⟨.ident, utf8 "d", ⟨⟨9, 1, 10⟩, ⟨10, 1, 11⟩⟩⟩,
    ⟨.symbol .semicolon, utf8 ";", ⟨⟨10, 1, 11⟩, ⟨11, 1, 12⟩⟩⟩,
    ⟨.eof, [], ⟨⟨11, 1, 12⟩, ⟨11, 1, 12⟩⟩⟩]

theorem mixedDifference_grouped :
    (scan (utf8 "a-b-(c)<=d;")).tokens = mixedTokens ∧
      ∃ node t, Grammar.expression 26 .outside (Stream.ofTokens mixedTokens) = .ok (node, t) ∧
        node.unplaced = .operation .zero .arithmetic (.symbol .minus)
          (.operation .zero .arithmetic (.symbol .minus) (.name .zero (utf8 "a"))
            (.name .zero (utf8 "b")))
          (.operation .zero .comparison (.fused .lte) (.name .zero (utf8 "c"))
            (.name .zero (utf8 "d"))) ∧ t.At [.mark .semicolon, .last] := by
  obtain ⟨scanned, tree⟩ : (scan (utf8 "a-b-(c)<=d;")).tokens = mixedTokens ∧
      mixedDifference.tree = .operation .zero .arithmetic (.symbol .minus)
        (.operation .zero .arithmetic (.symbol .minus) (.name .zero (utf8 "a"))
          (.name .zero (utf8 "b")))
        (.operation .zero .comparison (.fused .lte) (.name .zero (utf8 "c"))
          (.name .zero (utf8 "d"))) :=
    ⟨by cbv, by cbv⟩
  have here : (Stream.ofTokens mixedTokens).At
      (mixedDifference.words ++ [.mark .semicolon, .last]) :=
    .word rfl rfl <| .word rfl rfl <| .word rfl rfl <| .word rfl rfl <| .word rfl rfl <|
      .word rfl rfl <| .word rfl rfl <| .pair .lte rfl rfl rfl <| .word rfl rfl <|
      .word rfl rfl <| .word rfl rfl .nil
  rw [← tree]
  exact ⟨scanned, expression_of_formula here (by simp [Word.fixed]) .outside (by decide)⟩

end Tide
