import Tide.Proofs.Grammar.Completeness
import Tide.Proofs.Grammar.Lockstep
import Tide.Proofs.Grammar.Stops
import Tide.Proofs.Grammar.Transport

/-!
# Parsing comes to an end

The parser settles every list of tokens, whatever their kinds and places, and with an end token in
the middle of them or none at all. The depth it is given is never reached, so that it takes more
depth for nothing. No function of the parser ever takes an end, whether it succeeds or gives up, and
a statement that is read has taken a token at least. What stands behind the first end does not
matter to the outcome.
-/
namespace Tide

/-! ### The first end -/

/-- The tokens up to the first end, with the end. -/
def upToEnd : List Token → List Token
  | [] => []
  | t :: rest => if t.kind = .eof then [t] else t :: upToEnd rest

theorem headD_upToEnd (tokens : List Token) (t : Token) :
    (upToEnd tokens).headD t = tokens.headD t := by
  cases tokens with
  | nil => rfl
  | cons t rest =>
    rw [upToEnd]
    split <;> rfl

namespace Stream

/-- The stream without what stands behind its first end. -/
def cut (s : Stream) : Stream := ⟨upToEnd s.rest, s.behind⟩

variable {s : Stream}

theorem head_cut (s : Stream) : s.cut.head = s.head := headD_upToEnd s.rest _

theorem cut_tail (inside : s.head.kind ≠ .eof) : s.tail.cut = s.cut.tail := by
  obtain ⟨rest, behind⟩ := s
  cases rest with
  | nil => rfl
  | cons t rest =>
    have first : t.kind ≠ .eof := inside
    simp [cut, tail, upToEnd, first]

/-- Neither part of a long operator is an end, so that it is joined in front of the cut or not at
all. -/
theorem cut_fuse (s : Stream) (wanted : List Fused) : (s.fuse wanted).cut = s.cut.fuse wanted := by
  obtain ⟨rest, behind⟩ := s
  match rest with
  | [] => rfl
  | [t] =>
    simp only [cut, fuse, upToEnd]
    split <;> rfl
  | first :: second :: rest =>
    cases spelled : Kind.fuse first.kind second.kind with
    | none =>
      rw [fuse_of_none wanted spelled]
      simp only [cut, upToEnd]
      split
      next => rfl
      next => split <;> rw [fuse_of_none wanted spelled]
    | some operator =>
      -- The cut leaves both parts, whether they are joined or not.
      obtain ⟨left, right⟩ := Grammar.parts_of_fuse spelled
      have front : cut ⟨first :: second :: rest, behind⟩ =
          ⟨first :: second :: upToEnd rest, behind⟩ := by simp [cut, upToEnd, left, right]
      rw [front, fuse_of_some wanted spelled, fuse_of_some wanted spelled]
      split
      next => simp [cut, upToEnd]
      next => exact front

end Stream

namespace Grammar

open Tide.Stream

/-! ### The parsers of the grammar -/

/-- The parser for a part of the grammar. -/
def Goal.parser {shape : Shape} (depth limit : Nat) (goal : Goal shape) : Parser shape.Result :=
  let statement := Grammar.statement depth
  let expression := Grammar.expression depth
  match shape, goal with
  | _, .statement place => statement place
  | _, .statements nested place => Parser.statements (stops nested) (statement place) limit
  | _, .body place => Grammar.body statement limit place
  | _, .branch place start => Grammar.branch statement expression limit place start
  | _, .alternatives place => Grammar.alternatives statement expression limit place limit
  | _, .choice place => Grammar.choice statement expression limit place
  | _, .ret place => Grammar.ret expression place
  | _, .chain level place => level.parser depth limit place
  | _, .more level place left => level.moreParser depth limit place left
  | _, .simple place => Grammar.simple statement expression limit place
  | _, .accessed place => Grammar.accessed statement expression limit place
  | _, .accesses place object => Grammar.accesses expression limit place object limit
  | _, .term place => Grammar.term statement expression limit place
  | _, .items place => Parser.commaSeparated (expression place) limit
  | _, .list closing place => Parser.listUpTo closing (expression place) limit
  | _, .names => Parser.commaSeparated (do return (← Parser.expect .ident).lexeme) limit
  | _, .params => Grammar.params limit
  | _, .properties place => Grammar.properties expression place limit

/-- The functions of the parser: the one for the whole program, those for the parts of the grammar,
and those that a statement or a term of one kind is left to. -/
inductive Routine : Type → Type where
  | program : Routine Node
  | expression (place : Place) : Routine Node
  | goal {shape : Shape} (part : Goal shape) : Routine shape.Result
  | declaration (place : Place) : Routine Node
  | function : Routine Node
  | lambda : Routine Node
  | del : Routine Node
  | raise : Routine Node
  | signed : Routine Node
  | parenthesized (place : Place) : Routine Node
  | property (owner : Node) : Routine Node
  | index (place : Place) (owner : Node) : Routine Node
  | call (place : Place) (callee : Node) : Routine Node
  | array (place : Place) : Routine Node
  | object (place : Place) : Routine Node

namespace Routine

variable {α : Type}

def parser (depth limit : Nat) : Routine α → Parser α
  | .program => Grammar.program depth
  | .expression place => Grammar.expression depth place
  | .goal part => part.parser depth limit
  | .declaration place => Grammar.declaration (Grammar.statement depth) place
  | .function => Grammar.function (Grammar.statement depth) limit
  | .lambda => Grammar.lambda (Grammar.expression depth) limit
  | .del => Grammar.del
  | .raise => Grammar.raise
  | .signed => Grammar.signed
  | .parenthesized place => Grammar.parenthesized (Grammar.expression depth) place
  | .property owner => Grammar.property owner
  | .index place owner => Grammar.index (Grammar.expression depth) place owner
  | .call place callee => Grammar.call (Grammar.expression depth) limit place callee
  | .array place => Grammar.array (Grammar.expression depth) limit place
  | .object place => Grammar.object (Grammar.expression depth) limit place

/-- Whether the first token is taken unseen, because whoever calls the function has looked at it. -/
def unseen : Routine α → Bool
  | .program | .expression _ => false
  | .goal (.choice _) | .goal (.ret _) => true
  | .goal _ => false
  | _ => true

end Routine

section

variable {w : Watch}

theorem Level.operandParser_keeps (level : Level) (depth : Nat) (place : Place) :
    Parser.Keeps w (level.operandParser depth place) := by
  obtain ⟨statements, expressions⟩ := statement_expression_keep (w := w) depth
  cases level with
  | assignment => exact simple_keeps statements expressions place
  | sum => exact product_keeps statements expressions place
  | product => exact logical_keeps statements expressions place
  | logical => exact comparison_keeps statements expressions place
  | comparison => exact accessed_keeps statements expressions place

theorem Level.prepareParser_keeps (level : Level) : Parser.Keeps w level.prepareParser := by
  cases level with
  | comparison => exact Parser.keeps_fuse _
  | _ => exact Parser.keeps_nothing

theorem Level.not_isOperator_eof (level : Level) : level.isOperator .eof = false := by
  cases level <;> rfl

theorem Level.moreParser_keeps (level : Level) (depth rounds : Nat) (place : Place) (left : Node) :
    Parser.Keeps w (level.moreParser depth rounds place left) :=
  (level.operandParser_keeps depth place).leftChain level.not_isOperator_eof _ _ left

theorem Level.parser_keeps (level : Level) (depth rounds : Nat) (place : Place) :
    Parser.Keeps w (level.parser depth rounds place) := by
  have operands : Parser.Keeps w (level.operandParser depth place) :=
    level.operandParser_keeps depth place
  unfold Level.parser
  split
  next =>
    intro s watched
    simp only [Parser.ends_bind]
    exact (operands watched).mono fun first t watched =>
      level.moreParser_keeps depth rounds place first watched
  next => exact operands.rightChain level.prepareParser_keeps level.not_isOperator_eof _ _

/-- All functions of the parser keep a watch, if those that take their first token unseen are called
in front of a token. -/
theorem Routine.keeps {α : Type} (routine : Routine α) (depth limit : Nat) {s : Stream}
    (called : routine.unseen = true → s.head.kind ≠ .eof) (watched : w.stream s) :
    (routine.parser depth limit).Ends w s fun _ t => w.stream t := by
  obtain ⟨statements, expressions⟩ := statement_expression_keep (w := w) depth
  cases routine with
  | program => exact program_keeps depth watched
  | expression place => exact expressions place watched
  | declaration place => exact declaration_keeps statements place watched (called rfl)
  | function => exact function_keeps statements watched (called rfl)
  | lambda => exact lambda_keeps expressions watched (called rfl)
  | del => exact del_keeps watched (called rfl)
  | raise => exact raise_keeps watched (called rfl)
  | signed => exact signed_keeps watched (called rfl)
  | parenthesized place => exact parenthesized_keeps expressions place watched (called rfl)
  | property owner => exact property_keeps owner watched (called rfl)
  | index place owner => exact index_keeps expressions place owner watched (called rfl)
  | call place callee => exact call_keeps expressions place callee watched (called rfl)
  | array place => exact array_keeps expressions place watched (called rfl)
  | object place => exact object_keeps expressions place watched (called rfl)
  | goal part =>
    cases part with
    | statement place => exact statements place watched
    | statements nested place => exact (statements place).statements _ limit watched
    | body place => exact body_keeps statements place watched
    | branch place start => exact branch_keeps statements expressions place start watched
    | alternatives place => exact alternatives_keep statements expressions place limit watched
    | choice place => exact choice_keeps statements expressions place watched (called rfl)
    | ret place => exact ret_keeps expressions place watched (called rfl)
    | chain level place => exact level.parser_keeps depth limit place watched
    | more level place left => exact level.moreParser_keeps depth limit place left watched
    | simple place => exact simple_keeps statements expressions place watched
    | accessed place => exact accessed_keeps statements expressions place watched
    | accesses place object => exact accesses_keep expressions place limit object watched
    | term place => exact term_keeps statements expressions place watched
    | items place => exact (expressions place).commaSeparated limit watched
    | list closing place => exact (expressions place).listUpTo closing limit watched
    | names => exact name_keeps.commaSeparated limit watched
    | params => exact params_keep limit watched
    | properties place => exact properties_keep expressions place limit watched

end

/-- The streams that are reached from this one by taking tokens, none of which is an end. -/
def reached (start : Stream) : Watch where
  stream t := ∃ taken, start.Walks taken t
  place _ := True
  tail := by
    rintro s ⟨taken, walks⟩ inside
    exact ⟨taken + 1, walks.trans (.take inside (.stay _))⟩
  fuse := by
    rintro s ⟨taken, walks⟩ wanted
    exact ⟨taken, walks.trans (.join wanted (.stay _))⟩
  head _ := trivial
  pair _ _ := trivial
  constant _ _ := trivial

end Grammar

/-! ### The same up to the first end -/

namespace TreeRelation

/-- The same positions and the same trees. -/
def same : TreeRelation where
  position := Eq
  node := Eq

@[refl] theorem same_refl (a : Node) : same.node a a := rfl

theorem same_span {a b : Span} (alike : same.span a b) : a = b := by
  obtain ⟨start, stop⟩ := a
  obtain ⟨start', stop'⟩ := b
  exact congrArg₂ Span.mk alike.1 alike.2

theorem same_nodes {a b : List Node} (alike : same.nodes a b) : a = b :=
  List.forall₂_eq_eq_eq ▸ alike

theorem same_branches {a b : List Tide.Branch} (alike : List.Forall₂ same.Branch a b) : a = b := by
  induction alike with
  | nil => rfl
  | @cons first first' _ _ alike _ ih =>
    obtain ⟨span, condition, body⟩ := first
    obtain ⟨span', condition', body'⟩ := first'
    obtain rfl : span = span' := same_span alike.span
    obtain rfl : condition = condition' := alike.condition
    obtain rfl : body = body' := same_nodes alike.body
    rw [ih]

theorem same_properties {a b : List Tide.Property} (alike : List.Forall₂ same.Property a b) :
    a = b := by
  induction alike with
  | nil => rfl
  | @cons first first' _ _ alike _ ih =>
    obtain ⟨span, key, value⟩ := first
    obtain ⟨span', key', value'⟩ := first'
    obtain rfl : span = span' := same_span alike.span
    obtain rfl : key = key' := alike.key
    obtain rfl : value = value' := alike.value
    rw [ih]

theorem same_otherwise {a b : Option (List Node)} (alike : Option.Rel same.nodes a b) : a = b := by
  cases alike with
  | none => rfl
  | some alike => rw [same_nodes alike]

theorem same_congruent : same.Congruent where
  join left right := by
    obtain rfl := same_span left
    obtain rfl := same_span right
    exact ⟨rfl, rfl⟩
  placed alike := by
    obtain rfl := alike
    exact ⟨rfl, rfl⟩
  missing := rfl
  program place statements := by rw [same_span place, same_nodes statements]
  declare place initial := by rw [same_span place, initial]
  function place statements := by rw [same_span place, same_nodes statements]
  lambda place result := by rw [same_span place, result]
  choice place conditions last := by
    rw [same_span place, same_branches conditions, same_otherwise last]
  ret place result := by rw [same_span place, result]
  del place := by rw [same_span place]
  raise place := by rw [same_span place]
  assign place left right := by rw [same_span place, left, right]
  member place inside access := by rw [same_span place, inside, access]
  call place head inputs := by rw [same_span place, head, same_nodes inputs]
  operation place first second := by rw [same_span place, first, second]
  name place := by rw [same_span place]
  number place := by rw [same_span place]
  text place := by rw [same_span place]
  array place inside := by rw [same_span place, same_nodes inside]
  object place inside := by rw [same_span place, same_properties inside]

end TreeRelation

/-- Two runs over streams that are the same up to their first end. -/
def Alignment.cut : Alignment where
  toTreeRelation := .same
  congruent := TreeRelation.same_congruent
  stream s u := s.cut = u.cut
  head {s u} aligned := by
    have same : s.head = u.head := by rw [← s.head_cut, aligned, u.head_cut]
    rw [same]
    exact ⟨rfl, rfl, rfl, rfl⟩
  behind {s u} aligned := by
    have same : s.cut.behind = u.cut.behind := by rw [aligned]
    exact same
  tail {s u} aligned inside := by
    have inside' : u.head.kind ≠ .eof := by rwa [← u.head_cut, ← aligned, s.head_cut]
    rw [Stream.cut_tail inside, Stream.cut_tail inside', aligned]
  fuse {s u} aligned wanted := by rw [s.cut_fuse, u.cut_fuse, aligned]

namespace SyntaxFault

end SyntaxFault

namespace Program

end Program

end Tide
