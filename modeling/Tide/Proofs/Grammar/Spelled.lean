import Tide.Proofs.Grammar.Scanned
import Tide.Proofs.Grammar.Seen
import Tide.Proofs.Tree.Forget

/-!
# Streams that spell words

A stream is at some words when its tokens spell them. The lemmas here say what the grammar sees
there: which token is next, when two tokens are joined and when they are left apart, what a part of
a tree can begin with, and how an operand becomes a longer and longer expression as long as no
operator follows.
-/
namespace Tide

open Format

def Kind.isPair : Kind → Bool
  | .fused _ => true
  | _ => false

namespace Stream

/-- The tokens that are left spell the words. -/
def At (s : Stream) (words : List Word) : Prop := Spells s.rest words

namespace At

variable {s : Stream} {words : List Word}

theorem take {w : Word} (here : s.At (w :: words)) (single : w.kind.isPair = false) :
    s.head.kind = w.kind ∧ s.head.lexeme = w.lexeme ∧ s.tail.At words := by
  obtain ⟨rest, behind⟩ := s
  cases here with
  | word kind lexeme rest => exact ⟨kind, lexeme, rest⟩
  | pair => simp [Word.fixed, Kind.isPair] at single

theorem mark {symbol : Symbol} (here : s.At (.mark symbol :: words)) :
    s.head.kind = .symbol symbol ∧ s.tail.At words :=
  let ⟨kind, _, behind⟩ := here.take rfl
  ⟨kind, behind⟩

theorem key {keyword : Keyword} (here : s.At (.key keyword :: words)) :
    s.head.kind = .keyword keyword ∧ s.tail.At words :=
  let ⟨kind, _, behind⟩ := here.take rfl
  ⟨kind, behind⟩

theorem ident {name : Bytes} (here : s.At (.ident name :: words)) :
    s.head.kind = .ident ∧ s.head.lexeme = name ∧ s.tail.At words := here.take rfl

theorem text {value : Bytes} (here : s.At (.text value :: words)) :
    s.head.kind = .string ∧ s.head.lexeme = value ∧ s.tail.At words := here.take rfl

theorem digits {run : Bytes} (here : s.At (.digits run :: words)) :
    s.head.kind.isNumeric = true ∧ s.head.lexeme = run ∧ s.tail.At words := by
  have single : (Word.digits run).kind.isPair = false := by
    simp only [Word.digits]
    split <;> rfl
  obtain ⟨kind, lexeme, behind⟩ := here.take single
  refine ⟨?_, lexeme, behind⟩
  rw [kind]
  simp only [Word.digits]
  split <;> rfl

/-- A long operator is one token once it has been asked for. -/
theorem fuse_pair {operator : Fused} {wanted : List Fused} (known : operator ∈ wanted)
    (here : s.At (.fixed (.fused operator) :: words)) :
    (s.fuse wanted).head.kind = .fused operator ∧ (s.fuse wanted).tail.At words := by
  obtain ⟨rest, behind⟩ := s
  -- The operator may be one token already, and is then left alone.
  cases here with
  | @word t tokens _ _ kind lexeme rest =>
    have together : (⟨t :: tokens, behind⟩ : Stream).fuse wanted = ⟨t :: tokens, behind⟩ := by
      cases tokens with
      | nil => rfl
      | cons second tokens =>
        simp only [Word.fixed] at kind
        simp [fuse, kind, Kind.fuse]
    rw [together]
    exact ⟨kind, rest⟩
  | pair _ first second touching rest =>
    have spelling : Kind.fuse (.symbol operator.parts.1) (.symbol operator.parts.2) =
        some operator := by
      cases operator <;> decide
    simp only [fuse, touching, first, second, spelling, known, if_true]
    exact ⟨rfl, rest⟩

theorem skip_eq_self {w : Word} (here : s.At (w :: words)) (single : w.kind.isPair = false)
    (noSeparator : w.kind ≠ .symbol .semicolon) : s.skip = s := by
  have kind := (here.take single).1
  obtain ⟨rest, behind⟩ := s
  cases rest with
  | nil => rfl
  | cons first rest =>
    simp only [head, List.headD_cons] at kind
    simp [skip, skipWhile, kind, noSeparator]

theorem skip_separator (here : s.At (.mark .semicolon :: words)) : s.skip = s.tail.skip := by
  have kind := here.mark.1
  obtain ⟨rest, behind⟩ := s
  cases rest with
  | nil => rfl
  | cons first rest =>
    simp only [head, List.headD_cons] at kind
    simp [skip, tail, skipWhile, kind]

end At

/-- At the words, or behind the separator that they begin with. -/
def Near (s : Stream) (words : List Word) : Prop :=
  s.At words ∨ ∃ rest, words = .mark .semicolon :: rest ∧ s.At rest

/-- With or without a separator between them, the words are next behind the separators. -/
theorem Near.skip {s : Stream} {separator words : List Word}
    (near : s.Near (separator ++ words))
    (separated : separator = [] ∨ separator = [.mark .semicolon])
    (first : ∀ w ∈ words.head?, w.kind.isPair = false ∧ w.kind ≠ .symbol .semicolon) :
    s.skip.At words := by
  have stay : ∀ t : Stream, t.At words → t.skip.At words := by
    intro t here
    cases words with
    | nil =>
      obtain ⟨rest, behind⟩ := t
      cases here
      exact .nil
    | cons w words =>
      obtain ⟨single, noSeparator⟩ := first w (by simp)
      rw [here.skip_eq_self single noSeparator]
      exact here
  -- The words themselves begin with no separator, so at most the one in front of them is skipped.
  obtain rfl | rfl := separated
  · rcases near with here | ⟨rest, same, here⟩
    · exact stay s here
    · obtain rfl : words = .mark .semicolon :: rest := same
      exact absurd rfl (first (.mark .semicolon) (by simp)).2
  · rcases near with here | ⟨rest, same, here⟩
    · rw [At.skip_separator here]
      exact stay _ here.mark.2
    · obtain rfl : words = rest := by simpa using same
      exact stay s here

end Stream

namespace Grammar

/-! ### What a part of a tree begins with -/

/-- Ends every expression. -/
def closes : Kind → Bool
  | .symbol .semicolon | .symbol .comma | .symbol .rparen | .symbol .rbracket
  | .symbol .rbrace => true
  | _ => false

def startsOperand : Kind → Bool
  | .ident | .number | .float | .string | .symbol .minus | .symbol .plus | .symbol .lparen => true
  | _ => false

def startsExpression (kind : Kind) : Bool :=
  startsOperand kind || match kind with
    | .symbol .lbrace | .symbol .lbracket | .keyword .lambda | .keyword .if_ | .keyword .del
    | .keyword .raise => true
    | _ => false

def startsStatement (kind : Kind) : Bool :=
  startsExpression kind || match kind with
    | .symbol .bang | .symbol .question | .keyword .fn | .keyword .return_ => true
    | _ => false

/-- The words begin with one of the kinds. -/
def Begins (kinds : Kind → Bool) (words : List Word) : Prop :=
  ∃ w rest, words = w :: rest ∧ kinds w.kind = true

theorem Begins.append {kinds : Kind → Bool} {words : List Word} (begins : Begins kinds words)
    (more : List Word) : Begins kinds (words ++ more) := by
  obtain ⟨w, rest, rfl, kind⟩ := begins
  exact ⟨w, rest ++ more, rfl, kind⟩

theorem Begins.mono {kinds others : Kind → Bool} {words : List Word} (begins : Begins kinds words)
    (included : ∀ kind, kinds kind = true → others kind = true) : Begins others words := by
  obtain ⟨w, rest, rfl, kind⟩ := begins
  exact ⟨w, rest, rfl, included _ kind⟩

/-- The words of a number are its digits, and a sign in front if it is negative. -/
theorem number_words {x : Float} (finite : Number.Finite x) :
    ∃ run, (Word.number (Number.render x) = [.digits run] ∧ Number.read? run = some x) ∨
      (Word.number (Number.render x) = [.mark .minus, .digits run] ∧
        Number.read? ('-'.toUInt8 :: run) = some x) := by
  obtain ⟨sign, b, run, signed, digit, -, -, text, reading⟩ := Number.render_spec finite
  refine ⟨b :: run, ?_⟩
  rw [text] at reading ⊢
  obtain rfl | rfl := signed
  · have noSign : b ≠ '-'.toUInt8 :=
      Scan.ne_of_isRun (Scan.isRun_of_isDigit digit) (by decide)
    exact .inl ⟨by simp [Word.number, noSign], reading⟩
  · exact .inr ⟨by simp [Word.number], reading⟩

theorem begins_number {bytes : Bytes} (filled : bytes ≠ []) :
    Begins startsOperand (Word.number bytes) := by
  have digits : ∀ run, startsOperand (Word.digits run).kind = true := by
    intro run
    simp only [Word.digits]
    split <;> rfl
  cases bytes with
  | nil => contradiction
  | cons b run =>
    rw [Word.number]
    split
    · exact ⟨_, _, rfl, rfl⟩
    · exact ⟨_, _, rfl, digits _⟩

theorem begins_operand {node : Node} {words : List Word}
    (atomic : isAtomic node = true → Begins startsOperand words) :
    Begins startsOperand (Word.parenthesize node words) := by
  unfold Word.parenthesize
  split
  next plain => exact atomic plain
  next => exact ⟨_, _, rfl, rfl⟩

theorem begins_point {object : Node} {words : List Word}
    (atomic : isAtomic object = true → Begins startsOperand words) :
    Begins startsOperand (Word.point object words) := by
  unfold Word.point
  split
  · exact begins_number (by simp [utf8])
  · exact (begins_operand atomic).append _

/-- What the words of a part with this role begin with. -/
def Role.starts : Role → Kind → Bool
  | .statement _ => startsStatement
  | .choice _ | .expression => startsExpression

theorem expression_of_operand (kind : Kind) (start : startsOperand kind = true) :
    startsExpression kind = true := by simp [startsExpression, start]

theorem statement_of_expression (kind : Kind) (start : startsExpression kind = true) :
    startsStatement kind = true := by simp [startsStatement, start]

theorem Grammatical.begins {role : Role} {node : Node} (tree : Grammatical .scanned role node) :
    Begins role.starts node.words ∧
      (isAtomic node = true → Begins startsOperand node.words) := by
  -- A node that begins like an operand may be one; every other node but the atoms begins with a
  -- word of its own.
  have operand : ∀ {node : Node}, Begins startsOperand node.words →
      Begins startsExpression node.words ∧
        (isAtomic node = true → Begins startsOperand node.words) :=
    fun begins => ⟨begins.mono expression_of_operand, fun _ => begins⟩
  induction tree with
  | bare named => exact ⟨⟨_, _, rfl, rfl⟩, by simp [isAtomic]⟩
  | @declare _ _ _ constant =>
    rw [Node.words]
    exact ⟨⟨_, _, rfl, by cases constant <;> rfl⟩, by simp [isAtomic]⟩
  | function => exact ⟨⟨_, _, by rw [Node.words], rfl⟩, by simp [isAtomic]⟩
  | ret => exact ⟨⟨_, _, by rw [Node.words], rfl⟩, by simp [isAtomic]⟩
  | ofChoice whole ih => exact ⟨ih.1.mono statement_of_expression, ih.2⟩
  | ofExpression whole ih => exact ⟨ih.1.mono statement_of_expression, ih.2⟩
  | @choice _ _ branches _ filled =>
    refine ⟨?_, by simp [isAtomic]⟩
    obtain ⟨first, rest, rfl⟩ := List.exists_cons_of_ne_nil filled
    obtain ⟨span, condition, body⟩ := first
    rw [Node.words, branchWords, Word.intercalate_cons, List.cons_append]
    exact ⟨_, _, List.cons_append, rfl⟩
  | choiceTerm whole ih => exact ih
  | lambda => exact ⟨⟨_, _, by rw [Node.words], rfl⟩, by simp [isAtomic]⟩
  | del => exact ⟨⟨_, _, by rw [Node.words], rfl⟩, by simp [isAtomic]⟩
  | raise => exact ⟨⟨_, _, by rw [Node.words], rfl⟩, by simp [isAtomic]⟩
  | assign left right ihLeft ihRight =>
    refine operand ?_
    rw [Node.words]
    exact (begins_operand ihLeft.2).append _
  | property inside named ih =>
    refine operand ?_
    rw [Node.words]
    exact (begins_point ih.2).append _
  | index inside computed ih =>
    refine operand ?_
    rw [Node.words]
    exact (begins_operand ih.2).append _
  | call head inputs ih =>
    refine operand ?_
    rw [Node.words]
    exact (begins_operand ih.2).append _
  | operation belongs first second ihFirst =>
    refine operand ?_
    rw [Node.words]
    exact (begins_operand ihFirst.2).append _
  | name => exact operand ⟨_, _, by rw [Node.words], rfl⟩
  | @number _ x _ finite =>
    refine operand ?_
    obtain ⟨sign, b, run, -, -, -, -, text, -⟩ := Number.render_spec finite
    rw [Node.words]
    exact begins_number (by simp [text])
  | text => exact operand ⟨_, _, by rw [Node.words], rfl⟩
  | array => exact ⟨⟨_, _, by rw [Node.words], rfl⟩, by simp [isAtomic]⟩
  | object => exact ⟨⟨_, _, by rw [Node.words], rfl⟩, by simp [isAtomic]⟩

/-! ### Operands that no operator follows -/

/-- No operator of the level is next, not even in two parts. -/
def Level.Settled (level : Level) (t : Stream) : Prop :=
  level.prepare t = t ∧ level.isOperator t.head.kind = false

theorem Reads.settle (level : Level) {place : Place} {s t : Stream} {node : Node}
    (read : Reads (level.operand place) s node t) (settled : level.Settled t) :
    Reads (.chain level place) s node t := by
  obtain ⟨prepared, noOperator⟩ := settled
  cases left : level.groupsLeft with
  | true => exact .left left read (.noMore noOperator)
  | false =>
    have whole := Reads.alone left read (by rw [prepared]; exact noOperator)
    rw [prepared] at whole
    exact whole

theorem noPair_of_startsExpression {kind : Kind} (start : startsExpression kind = true) :
    kind.isPair = false := by
  cases kind <;> first | rfl | simp [startsExpression, startsOperand] at start

/-- A single token stays single if no operator begins with it, or if what follows begins an
operand. -/
theorem fuse_eq_self_of_at {s : Stream} {w : Word} {words : List Word} (here : s.At (w :: words))
    (single : w.kind.isPair = false)
    (apart : closes w.kind = true ∨ Begins startsExpression words) (wanted : List Fused) :
    s.fuse wanted = s := by
  obtain ⟨kind, -, behind⟩ := here.take single
  obtain ⟨rest, place⟩ := s
  match rest with
  | [] => rfl
  | [_] => rfl
  | first :: second :: rest =>
    -- The first half of a long operator closes nothing, and the second half begins no operand.
    have noOperator : Kind.fuse first.kind second.kind = none := by
      cases spelled : Kind.fuse first.kind second.kind with
      | none => rfl
      | some operator =>
        obtain ⟨left, right⟩ := parts_of_fuse spelled
        rcases apart with closed | ⟨v, more, rfl, start⟩
        · rw [← kind, Stream.head, List.headD_cons, left] at closed
          cases operator <;> simp [Fused.parts, closes] at closed
        · rw [← (behind.take (noPair_of_startsExpression start)).1] at start
          simp only [Stream.tail, Stream.head, List.headD_cons, right] at start
          cases operator <;> simp [Fused.parts, startsExpression, startsOperand] at start
    simp [Stream.fuse, noOperator]

theorem noPair_of_closes {kind : Kind} (closed : closes kind = true) : kind.isPair = false := by
  cases kind <;> first | rfl | simp [closes] at closed

theorem settled_of_closes (level : Level) {s : Stream} {w : Word} {words : List Word}
    (here : s.At (w :: words)) (closed : closes w.kind = true) : level.Settled s := by
  have single := noPair_of_closes closed
  have kind := (here.take single).1
  refine ⟨?_, ?_⟩
  · cases level with
    | comparison => exact fuse_eq_self_of_at here single (.inl closed) _
    | _ => rfl
  · rw [← kind] at closed
    generalize s.head.kind = found at closed
    unfold closes at closed
    split at closed <;> first | (cases level <;> rfl) | contradiction

/-- Looser levels come first. -/
def Level.rank : Level → Nat
  | .assignment => 0
  | .sum => 1
  | .product => 2
  | .logical => 3
  | .comparison => 4

theorem isOperator_tighter {level tighter : Level} {operator : Kind}
    (belongs : level.isOperator operator = true) (below : level.rank < tighter.rank) :
    tighter.isOperator operator = false := by
  -- No token is an operator of two levels.
  cases level with
  | assignment =>
    obtain rfl : operator = .symbol .assign := by simpa [Level.isOperator] using belongs
    cases tighter <;> first | rfl | simp [Level.rank] at below
  | sum =>
    obtain rfl | rfl : operator = .symbol .plus ∨ operator = .symbol .minus := by
      simpa [Level.isOperator, isAdditive] using belongs
    all_goals cases tighter <;> first | rfl | simp [Level.rank] at below
  | product =>
    simp only [Level.isOperator, isMultiplicative, Bool.or_eq_true, decide_eq_true_eq] at belongs
    obtain (((rfl | rfl) | rfl) | rfl) | rfl := belongs
    all_goals cases tighter <;> first | rfl | simp [Level.rank] at below
  | logical =>
    simp only [Level.isOperator, isLogical, Bool.or_eq_true, decide_eq_true_eq] at belongs
    obtain (rfl | rfl) | rfl := belongs
    all_goals cases tighter <;> first | rfl | simp [Level.rank] at below
  | comparison => cases tighter <;> simp [Level.rank] at below

/-- The next token is an operator of the level, and so of no tighter one. -/
theorem operator_of_at (level : Level) {s : Stream} {operator : Kind} {words : List Word}
    (here : s.At (.fixed operator :: words)) (belongs : level.isOperator operator = true)
    (start : Begins startsExpression words) :
    (level.prepare s).head.kind = operator ∧ (level.prepare s).tail.At words ∧
      ∀ tighter : Level, level.rank < tighter.rank → tighter.Settled s := by
  have unpaired : level ≠ .comparison → operator.isPair = false := by
    intro loose
    cases operator with
    | fused =>
      cases level <;> simp [Level.isOperator, isAdditive, isMultiplicative, isLogical] at belongs
      contradiction
    | _ => rfl
  -- Only comparisons join two tokens into one. A tighter level than that is not there to be
  -- settled.
  by_cases loose : level = .comparison
  · subst loose
    have tightest : ∀ tighter : Level, Level.comparison.rank < tighter.rank →
        tighter.Settled s := by
      intro tighter below
      cases tighter <;> simp [Level.rank] at below
    cases operator with
    | fused operator =>
      have known : operator ∈ comparisonPairs := by cases operator <;> revert belongs <;> decide
      obtain ⟨kind, behind⟩ := here.fuse_pair known
      exact ⟨kind, behind, tightest⟩
    | _ =>
      obtain ⟨kind, -, behind⟩ := here.take rfl
      rw [Level.prepare, fuse_eq_self_of_at here rfl (.inr start)]
      exact ⟨kind, behind, tightest⟩
  · obtain ⟨kind, -, behind⟩ := here.take (unpaired loose)
    have prepared : level.prepare s = s := by
      cases level with
      | comparison => contradiction
      | _ => rfl
    rw [prepared]
    refine ⟨kind, behind, fun tighter below => ⟨?_, ?_⟩⟩
    · cases tighter with
      | comparison => exact fuse_eq_self_of_at here (unpaired loose) (.inr start) _
      | _ => rfl
    · rw [kind]
      exact isOperator_tighter belongs below

/-- An operand of a level, in front of something that is no tighter operator. -/
theorem Reads.operand_of_accessed (level : Level) {place : Place} {s t : Stream} {node : Node}
    (read : Reads (.accessed place) s node t)
    (noObject : s.head.kind ≠ .symbol .lbrace) (noArray : s.head.kind ≠ .symbol .lbracket)
    (settled : ∀ tighter : Level, level.rank < tighter.rank → tighter.Settled t) :
    Reads (level.operand place) s node t := by
  -- An operand of a loose level is one of every tighter level, with no operator behind it.
  cases level with
  | comparison => exact read
  | logical => exact read.settle .comparison (settled _ (by decide))
  | product =>
    have comparison := Reads.settle .comparison read (settled _ (by decide))
    exact comparison.settle .logical (settled _ (by decide))
  | sum =>
    have comparison := Reads.settle .comparison read (settled _ (by decide))
    have logical := Reads.settle .logical comparison (settled _ (by decide))
    exact logical.settle .product (settled _ (by decide))
  | assignment =>
    have comparison := Reads.settle .comparison read (settled _ (by decide))
    have logical := Reads.settle .logical comparison (settled _ (by decide))
    have product := Reads.settle .product logical (settled _ (by decide))
    exact .simple noObject noArray (product.settle .sum (settled _ (by decide)))

/-- A chain in front of something that ends it is a whole expression. -/
theorem Reads.expression_of_chain (level : Level) {place : Place} {s t : Stream} {node : Node}
    (read : Reads (.chain level place) s node t)
    (noObject : s.head.kind ≠ .symbol .lbrace) (noArray : s.head.kind ≠ .symbol .lbracket)
    (settled : ∀ level : Level, level.Settled t) : Reads (.expression place) s node t := by
  have assignment : Reads (.chain .sum place) s node t → Reads (.expression place) s node t :=
    fun sum => Reads.settle .assignment (.simple noObject noArray sum) (settled _)
  cases level with
  | assignment => exact read
  | sum => exact assignment read
  | product => exact assignment (read.settle .sum (settled _))
  | logical => exact assignment ((read.settle .product (settled _)).settle .sum (settled _))
  | comparison =>
    have logical := Reads.settle .logical read (settled _)
    have product := Reads.settle .product logical (settled _)
    exact assignment (product.settle .sum (settled _))

end Grammar
end Tide
