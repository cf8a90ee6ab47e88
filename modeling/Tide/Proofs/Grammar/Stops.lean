import Tide.Proofs.Grammar.Progress

/-!
# Where a parser stops

A watch is kept on the stream while a parser runs: on a property that is not lost when a token other
than an end is taken, or when two tokens are joined. Wherever the parser stops, with a result or
with a fault, the stream still has the property, and a fault is reported at one of the places that
go with it.

## Proof strategy

What must hold in front of a parser is computed from the parser, one step after the other; a parser
for whole statements or expressions, or a loop, is passed by what is known of it as a whole. Some
parsers take their first token unseen. These keep the watch where they are called in front of a
token, and every caller has looked at it. The knot is tied by induction on the depth.
-/
namespace Tide

/-- What is watched of a stream, and where faults may be reported as long as it holds. -/
structure Watch where
  stream : Stream → Prop
  place : Span → Prop
  tail {s : Stream} (watched : stream s) (inside : s.head.kind ≠ .eof) : stream s.tail
  fuse {s : Stream} (watched : stream s) (wanted : List Fused) : stream (s.fuse wanted)
  head {s : Stream} (watched : stream s) : place s.head.span
  /-- An empty condition and a number with a sign are two tokens. -/
  pair {s : Stream} (watched : stream s) (inside : s.head.kind ≠ .eof) :
    place (s.head.span.join s.tail.head.span)
  /-- A constant without a value reaches from its marker to the end of its name. -/
  constant {s : Stream} (watched : stream s) (inside : s.head.kind ≠ .eof) :
    place ⟨s.head.span.start, s.tail.tail.behind⟩

theorem Watch.skip (w : Watch) {s : Stream} (watched : w.stream s) : w.stream s.skip :=
  s.takes_skip.keeps (fun _ inside watched => w.tail watched inside)
    (fun wanted _ watched => w.fuse watched wanted) watched

namespace Parser

variable {α β : Type} {w : Watch} {s : Stream}

/-- A success ends with the property. A run that gives up leaves a stream that is watched, and a
fault is reported at a place that goes with it. -/
def Ends (w : Watch) (p : Parser α) (s : Stream) (after : α → Stream → Prop) : Prop :=
  match p s with
  | .ok (a, t) => after a t
  | .error ⟨.fault _ span, t⟩ => w.place span ∧ w.stream t
  | .error ⟨.exhausted, t⟩ => w.stream t

/-- The stream behind a result, or where the run gave up. -/
def left (p : Parser α) (s : Stream) : Stream :=
  match p s with
  | .ok (_, t) => t
  | .error stop => stop.stream

/-- Keeps the watch wherever it is called. -/
def Keeps (w : Watch) (p : Parser α) : Prop :=
  ∀ ⦃s : Stream⦄, w.stream s → p.Ends w s fun _ t => w.stream t

/-- Keeps the watch where the next token is not an end. -/
def KeepsInside (w : Watch) (p : Parser α) : Prop :=
  ∀ ⦃s : Stream⦄, w.stream s → s.head.kind ≠ .eof → p.Ends w s fun _ t => w.stream t

theorem Ends.mono {p : Parser α} {before after : α → Stream → Prop}
    (ends : p.Ends w s before) (imp : ∀ a t, before a t → after a t) : p.Ends w s after := by
  unfold Ends at *
  split at ends
  next a t found => exact imp a t ends
  next => exact ends
  next => exact ends

theorem Ends.left {p : Parser α} (ends : p.Ends w s fun _ t => w.stream t) :
    w.stream (p.left s) := by
  unfold Ends at ends
  unfold Parser.left
  split at ends
  next a t found => rwa [found]
  next cause span t found =>
    rw [found]
    exact ends.2
  next t found => rwa [found]

section

variable {after : α → Stream → Prop}

@[simp]
theorem ends_bind {p : Parser β} {f : β → Parser α} :
    (p >>= f).Ends w s after ↔ p.Ends w s fun b t => (f b).Ends w t after := by
  unfold Ends
  rw [bind_eq]
  cases p s with
  | error stop =>
    obtain ⟨halt, t⟩ := stop
    cases halt <;> rfl
  | ok found => rfl

@[simp]
theorem ends_pure {a : α} : (pure a : Parser α).Ends w s after ↔ after a s := Iff.rfl

@[simp]
theorem ends_fail {cause : SyntaxFault} {span : Span} :
    (fail cause span : Parser α).Ends w s after ↔ w.place span ∧ w.stream s := Iff.rfl

end

@[simp]
theorem ends_peek {after : Token → Stream → Prop} : peek.Ends w s after ↔ after s.head s := Iff.rfl

@[simp]
theorem ends_peekSecond {after : Token → Stream → Prop} :
    peekSecond.Ends w s after ↔ after s.second s := Iff.rfl

@[simp]
theorem ends_peekKind {after : Kind → Stream → Prop} :
    peekKind.Ends w s after ↔ after s.head.kind s := Iff.rfl

@[simp]
theorem ends_advance {after : Token → Stream → Prop} :
    advance.Ends w s after ↔ after s.head s.tail := Iff.rfl

@[simp]
theorem ends_at {kind : Kind} {after : Bool → Stream → Prop} :
    (at_ kind).Ends w s after ↔ after (s.head.kind = kind) s := Iff.rfl

@[simp]
theorem ends_atSymbol {symbol : Symbol} {after : Bool → Stream → Prop} :
    (atSymbol symbol).Ends w s after ↔ after (s.head.kind = .symbol symbol) s := Iff.rfl

@[simp]
theorem ends_fuse {wanted : List Fused} {after : Unit → Stream → Prop} :
    (fuse wanted).Ends w s after ↔ after () (s.fuse wanted) := Iff.rfl

@[simp]
theorem ends_skipSeparators {after : Unit → Stream → Prop} :
    skipSeparators.Ends w s after ↔ after () s.skip := Iff.rfl

@[simp]
theorem ends_spanFrom {start : Position} {after : Span → Stream → Prop} :
    (spanFrom start).Ends w s after ↔ after ⟨start, s.behind⟩ s := Iff.rfl

/-- A wanted token is no end. If it is missing, that is reported where another one stands. -/
theorem Ends.expect {kind : Kind} {after : Token → Stream → Prop} (visible : kind ≠ .eof)
    (watched : w.stream s)
    (found : s.head.kind ≠ .eof → w.stream s.tail → after s.head s.tail) :
    (expect kind).Ends w s after := by
  unfold Ends Parser.expect
  by_cases same : s.head.kind = kind
  · rw [if_pos same]
    have inside : s.head.kind ≠ .eof := same ▸ visible
    exact found inside (w.tail watched inside)
  · rw [if_neg same]
    exact ⟨w.head watched, watched⟩

theorem Ends.expectSymbol {symbol : Symbol} {after : Token → Stream → Prop}
    (watched : w.stream s)
    (found : s.head.kind ≠ .eof → w.stream s.tail → after s.head s.tail) :
    (expectSymbol symbol).Ends w s after :=
  .expect nofun watched found

/-! ### Loops -/

namespace Keeps

variable {p : Parser α} (keeps : Keeps w p)

include keeps

theorem statements (stop : Kind → Bool) (rounds : Nat) :
    Keeps w (Parser.statements stop p rounds) := by
  induction rounds with
  | zero => exact fun s watched => watched
  | succ rounds ih =>
    intro s watched
    simp only [Parser.statements, ends_bind, ends_skipSeparators, ends_peekKind]
    split
    next => exact w.skip watched
    next =>
      simp only [ends_bind, ends_pure]
      exact (keeps (w.skip watched)).mono fun _ t watched => ih watched

theorem commaSeparated (rounds : Nat) : Keeps w (Parser.commaSeparated p rounds) := by
  induction rounds with
  | zero => exact fun s watched => watched
  | succ rounds ih =>
    intro s watched
    simp only [Parser.commaSeparated, ends_bind, ends_atSymbol]
    refine (keeps watched).mono fun _ t watched => ?_
    split
    next comma =>
      simp only [ends_bind, ends_advance, ends_pure]
      exact ih (w.tail watched (by simp [of_decide_eq_true comma]))
    next => exact watched

theorem listUpTo (closing : Symbol) (limit : Nat) :
    Keeps w (Parser.listUpTo closing p limit) := by
  intro s watched
  simp only [Parser.listUpTo, ends_bind, ends_atSymbol]
  split
  next closed => exact w.tail watched (by simp [of_decide_eq_true closed])
  next =>
    simp only [ends_bind, ends_pure]
    exact (keeps.commaSeparated limit watched).mono fun _ t watched =>
      .expectSymbol watched fun _ watched => watched

theorem leftChain {isOperator : Kind → Bool} (visible : isOperator .eof = false)
    (combine : Kind → α → α → α) (rounds : Nat) :
    ∀ left, Keeps w (Parser.leftChain isOperator p combine left rounds) := by
  induction rounds with
  | zero => exact fun left s watched => watched
  | succ rounds ih =>
    intro left s watched
    simp only [Parser.leftChain, ends_bind, ends_peekKind]
    split
    next sign =>
      have inside : s.head.kind ≠ .eof := fun ended => by simp [ended, visible] at sign
      simp only [ends_bind, ends_advance]
      exact (keeps (w.tail watched inside)).mono fun _ t watched => ih _ watched
    next => exact watched

theorem rightChain {prepare : Parser Unit} (prepared : Keeps w prepare)
    {isOperator : Kind → Bool} (visible : isOperator .eof = false) (combine : Kind → α → α → α)
    (rounds : Nat) : Keeps w (Parser.rightChain prepare isOperator p combine rounds) := by
  induction rounds with
  | zero => exact fun s watched => watched
  | succ rounds ih =>
    intro s watched
    simp only [Parser.rightChain, ends_bind, ends_peekKind]
    refine (keeps watched).mono fun _ t watched => (prepared watched).mono fun _ u watched => ?_
    split
    next sign =>
      have inside : u.head.kind ≠ .eof := fun ended => by simp [ended, visible] at sign
      simp only [ends_bind, ends_advance, ends_pure]
      exact ih (w.tail watched inside)
    next => exact watched

end Keeps

theorem keeps_nothing : Keeps w (pure ()) := fun _ watched => watched

theorem keeps_fuse (wanted : List Fused) : Keeps w (fuse wanted) :=
  fun _ watched => w.fuse watched wanted

end Parser

namespace Grammar

open Tide.Parser

variable {w : Watch}

theorem name_keeps : Keeps w (do return (← Parser.expect .ident).lexeme) := by
  intro s watched
  simp only [ends_bind, ends_pure]
  exact .expect nofun watched fun _ watched => watched

theorem params_keep (limit : Nat) : Keeps w (params limit) := by
  intro s watched
  simp only [params, ends_bind]
  exact .expectSymbol watched fun _ watched => name_keeps.listUpTo _ _ watched

theorem number_ends {text : Bytes} {span : Span} {s : Stream} (watched : w.stream s)
    (place : w.place span) : (number text span).Ends w s fun _ t => w.stream t := by
  unfold number
  split
  next => exact watched
  next => exact ⟨place, watched⟩

theorem signed_keeps : KeepsInside w signed := by
  intro s watched inside
  simp only [signed, ends_bind, ends_peek, ends_peekSecond]
  split
  next numeric =>
    simp only [ends_bind, ends_advance]
    exact number_ends (w.tail (w.tail watched inside) (ne_eof_of_isNumeric numeric))
      (w.pair watched inside)
  next => exact ⟨w.head watched, watched⟩

/-- One token and then another of a wanted kind. If that is missing, the one in its place is
reported. -/
theorem keeps_pair (kind : Kind) (visible : kind ≠ .eof) (cause : Token → SyntaxFault)
    (result : Token → Token → Node) :
    KeepsInside w (do
      let first ← Parser.advance
      let second ← Parser.peek
      if second.kind = kind then
        let _ ← Parser.advance
        return result first second
      Parser.fail (cause second) second.span) := by
  intro s watched inside
  have watched := w.tail watched inside
  simp only [ends_bind, ends_advance, ends_peek]
  split
  next found => exact w.tail watched (found ▸ visible)
  next => exact ⟨w.head watched, watched⟩

theorem del_keeps : KeepsInside w del :=
  keeps_pair .ident nofun .delWithoutName fun first second =>
    .del ⟨first.span.start, second.span.stop⟩ second.lexeme

theorem raise_keeps : KeepsInside w raise :=
  keeps_pair .string nofun .raiseWithoutText fun first second =>
    .raise ⟨first.span.start, second.span.stop⟩ second.lexeme

theorem property_keeps (object : Node) : KeepsInside w (property object) :=
  keeps_pair .ident nofun .expectedProperty fun _ second =>
    .member (object.span.join second.span) object (.name second.span second.lexeme) false

section

variable {statement expression : Place → Parser Node} {limit : Nat}
  (statementKeeps : ∀ place, Keeps w (statement place))
  (expressionKeeps : ∀ place, Keeps w (expression place))

/-! ### Bodies and choices -/

include statementKeeps in
theorem body_keeps (place : Place) : Keeps w (body statement limit place) := by
  intro s watched
  simp only [body, ends_bind, ends_pure]
  exact .expectSymbol watched fun _ watched =>
    ((statementKeeps place).statements _ _ watched).mono fun _ t watched =>
      .expectSymbol watched fun _ watched => watched

include statementKeeps expressionKeeps in
theorem branch_keeps (place : Place) (start : Position) :
    Keeps w (branch statement expression limit place start) := by
  intro s watched
  simp only [branch, ends_bind, ends_peek]
  refine .expectSymbol watched fun inside behind => ?_
  split
  next => exact ⟨w.pair watched inside, behind⟩
  next =>
    simp only [ends_bind, ends_spanFrom, ends_pure]
    exact (expressionKeeps _ behind).mono fun _ t watched =>
      .expectSymbol watched fun _ watched => body_keeps statementKeeps place watched

include statementKeeps expressionKeeps in
theorem alternatives_keep (place : Place) (rounds : Nat) :
    Keeps w (alternatives statement expression limit place rounds) := by
  induction rounds with
  | zero => exact fun s watched => watched
  | succ rounds ih =>
    intro s watched
    simp only [alternatives, ends_bind, ends_at]
    split
    next otherwise =>
      have watched := w.tail watched (by simp [of_decide_eq_true otherwise])
      simp only [ends_bind, ends_advance, ends_at]
      split
      next further =>
        have watched := w.tail watched (by simp [of_decide_eq_true further])
        simp only [ends_bind, ends_advance, ends_pure]
        exact (branch_keeps statementKeeps expressionKeeps place _ watched).mono
          fun _ t watched => ih watched
      next =>
        simp only [ends_bind, ends_pure]
        exact body_keeps statementKeeps place watched
    next => exact watched

include statementKeeps expressionKeeps in
theorem choice_keeps (place : Place) :
    KeepsInside w (choice statement expression limit place) := by
  intro s watched inside
  simp only [choice, ends_bind, ends_advance, ends_spanFrom, ends_pure]
  exact (branch_keeps statementKeeps expressionKeeps place _ (w.tail watched inside)).mono
    fun _ t watched => alternatives_keep statementKeeps expressionKeeps place limit watched

include expressionKeeps

theorem ret_keeps (place : Place) : KeepsInside w (ret expression place) := by
  intro s watched inside
  have behind := w.tail watched inside
  simp only [ret, ends_bind, ends_advance]
  cases place with
  | outside => exact ⟨w.head watched, behind⟩
  | nested => exact ⟨w.head watched, behind⟩
  | functionBody =>
    simp only [ends_bind, ends_spanFrom, ends_pure]
    exact expressionKeeps _ behind

/-! ### Expressions -/

theorem lambda_keeps : KeepsInside w (lambda expression limit) := by
  intro s watched inside
  simp only [lambda, ends_bind, ends_advance, ends_fuse, ends_spanFrom, ends_pure]
  exact (params_keep limit (w.tail watched inside)).mono fun _ t watched =>
    .expect nofun (w.fuse watched _) fun _ watched => expressionKeeps _ watched

theorem parenthesized_keeps (place : Place) : KeepsInside w (parenthesized expression place) := by
  intro s watched inside
  simp only [parenthesized, ends_bind, ends_advance, ends_pure]
  exact (expressionKeeps place (w.tail watched inside)).mono fun _ t watched =>
    .expectSymbol watched fun _ watched => watched

theorem index_keeps (place : Place) (object : Node) :
    KeepsInside w (index expression place object) := by
  intro s watched inside
  simp only [index, ends_bind, ends_advance, ends_spanFrom, ends_pure]
  exact (expressionKeeps place (w.tail watched inside)).mono fun _ t watched =>
    .expectSymbol watched fun _ watched => watched

theorem call_keeps (place : Place) (callee : Node) :
    KeepsInside w (call expression limit place callee) := by
  intro s watched inside
  simp only [call, ends_bind, ends_advance, ends_spanFrom, ends_pure]
  exact (expressionKeeps place).listUpTo _ _ (w.tail watched inside)

theorem accesses_keep (place : Place) (rounds : Nat) :
    ∀ object, Keeps w (accesses expression limit place object rounds) := by
  induction rounds with
  | zero => exact fun object s watched => watched
  | succ rounds ih =>
    intro object s watched
    simp only [accesses, ends_bind, ends_peekKind]
    -- The tests of the parser, in its order: a call, a property, an index, and the end.
    split
    next opening =>
      simp only [ends_bind]
      exact (call_keeps expressionKeeps place object watched (by simp [opening])).mono
        fun _ t watched => ih _ watched
    next point =>
      simp only [ends_bind]
      exact (property_keeps object watched (by simp [point])).mono fun _ t watched => ih _ watched
    next opening =>
      simp only [ends_bind]
      exact (index_keeps expressionKeeps place object watched (by simp [opening])).mono
        fun _ t watched => ih _ watched
    next => exact watched

theorem array_keeps (place : Place) : KeepsInside w (array expression limit place) := by
  intro s watched inside
  simp only [array, ends_bind, ends_advance, ends_spanFrom, ends_pure]
  exact (expressionKeeps place).listUpTo _ _ (w.tail watched inside)

theorem properties_keep (place : Place) (rounds : Nat) :
    Keeps w (properties expression place rounds) := by
  induction rounds with
  | zero => exact fun s watched => watched
  | succ rounds ih =>
    intro s watched
    simp only [properties, ends_bind, ends_peekKind]
    split
    next => exact watched
    next =>
      simp only [ends_bind, ends_peekKind]
      refine .expect nofun watched fun _ watched => ?_
      -- Behind the key: a comma, the closing brace, or a colon and the value.
      split
      next comma =>
        simp only [ends_bind, ends_advance, ends_pure]
        exact ih (w.tail watched (by simp [comma]))
      next =>
        simp only [ends_bind, ends_pure]
        exact ih watched
      next =>
        simp only [ends_bind, ends_spanFrom, ends_atSymbol]
        refine .expectSymbol watched fun _ watched => ?_
        refine (expressionKeeps place watched).mono fun _ t watched => ?_
        split
        next =>
          simp only [ends_bind, ends_pure]
          exact .expectSymbol watched fun _ watched => ih watched
        next =>
          simp only [ends_bind, ends_pure]
          exact ih watched

theorem object_keeps (place : Place) : KeepsInside w (object expression limit place) := by
  intro s watched inside
  simp only [object, ends_bind, ends_advance, ends_spanFrom, ends_pure]
  exact (properties_keep expressionKeeps place limit (w.tail watched inside)).mono
    fun _ t watched => .expectSymbol watched fun _ watched => watched

include statementKeeps

theorem term_keeps (place : Place) : Keeps w (term statement expression limit place) := by
  intro s watched
  simp only [term, ends_bind, ends_peek]
  have wrong : w.place s.head.span ∧ w.stream s := ⟨w.head watched, watched⟩
  -- One case for each kind of token that a term may begin with, and those that it may not.
  split
  next name => exact w.tail watched (by simp [name])
  next digits =>
    simp only [ends_bind, ends_advance]
    exact number_ends (w.tail watched (by simp [digits])) wrong.1
  next digits =>
    simp only [ends_bind, ends_advance]
    exact number_ends (w.tail watched (by simp [digits])) wrong.1
  next sign => exact signed_keeps watched (by simp [sign])
  next sign => exact signed_keeps watched (by simp [sign])
  next text => exact w.tail watched (by simp [text])
  next opening => exact parenthesized_keeps expressionKeeps place watched (by simp [opening])
  next word => exact lambda_keeps expressionKeeps watched (by simp [word])
  next word => exact choice_keeps statementKeeps expressionKeeps place watched (by simp [word])
  next word => exact ret_keeps expressionKeeps place watched (by simp [word])
  next word => exact del_keeps watched (by simp [word])
  next word => exact raise_keeps watched (by simp [word])
  next => exact wrong
  next => exact wrong
  next => exact wrong

theorem accessed_keeps (place : Place) :
    Keeps w (accessed statement expression limit place) := by
  intro s watched
  simp only [accessed, ends_bind]
  exact (term_keeps statementKeeps expressionKeeps place watched).mono fun _ t watched =>
    accesses_keep expressionKeeps place limit _ watched

theorem comparison_keeps (place : Place) :
    Keeps w (comparison statement expression limit place) :=
  (accessed_keeps statementKeeps expressionKeeps place).rightChain (keeps_fuse _) rfl _ _

theorem logical_keeps (place : Place) : Keeps w (logical statement expression limit place) :=
  (comparison_keeps statementKeeps expressionKeeps place).rightChain keeps_nothing rfl _ _

theorem product_keeps (place : Place) : Keeps w (product statement expression limit place) := by
  have operand : Keeps w (logical statement expression limit place) :=
    logical_keeps statementKeeps expressionKeeps place
  intro s watched
  simp only [product, ends_bind]
  exact (operand watched).mono fun _ t watched => operand.leftChain rfl _ _ _ watched

theorem sum_keeps (place : Place) : Keeps w (sum statement expression limit place) := by
  have operand : Keeps w (product statement expression limit place) :=
    product_keeps statementKeeps expressionKeeps place
  intro s watched
  simp only [sum, ends_bind]
  exact (operand watched).mono fun _ t watched => operand.leftChain rfl _ _ _ watched

theorem simple_keeps (place : Place) : Keeps w (simple statement expression limit place) := by
  intro s watched
  simp only [simple, ends_bind, ends_peekKind]
  split
  next opening => exact object_keeps expressionKeeps place watched (by simp [opening])
  next opening => exact array_keeps expressionKeeps place watched (by simp [opening])
  next => exact sum_keeps statementKeeps expressionKeeps place watched

/-! ### Statements -/

omit expressionKeeps

theorem declaration_keeps (place : Place) : KeepsInside w (declaration statement place) := by
  intro s watched inside
  simp only [declaration, ends_bind, ends_advance, ends_peek]
  refine .expect nofun (w.tail watched inside) fun _ behind => ?_
  split
  next separator =>
    split
    next =>
      simp only [ends_bind, ends_spanFrom, ends_fail]
      -- The marker and the name have been taken.
      exact ⟨w.constant watched inside, behind⟩
    next => exact w.tail behind (by simp [separator])
  next sign =>
    simp only [ends_bind, ends_advance, ends_spanFrom, ends_pure]
    exact statementKeeps _ (w.tail behind (by simp [sign]))
  next => exact ⟨w.head behind, behind⟩

theorem function_keeps : KeepsInside w (function statement limit) := by
  intro s watched inside
  simp only [function, ends_bind, ends_advance, ends_spanFrom, ends_pure]
  exact .expect nofun (w.tail watched inside) fun _ watched =>
    (params_keep limit watched).mono fun _ t watched => body_keeps statementKeeps _ watched

include expressionKeeps

theorem statementStep_keeps (place : Place) :
    Keeps w (statementStep statement expression limit place) := by
  intro s watched
  simp only [statementStep, ends_bind, ends_peekKind]
  split
  next marker => exact declaration_keeps statementKeeps place watched (by simp [marker])
  next marker => exact declaration_keeps statementKeeps place watched (by simp [marker])
  next word => exact function_keeps statementKeeps watched (by simp [word])
  next word => exact choice_keeps statementKeeps expressionKeeps place watched (by simp [word])
  next word => exact ret_keeps expressionKeeps place watched (by simp [word])
  next => exact expressionKeeps _ watched

end

theorem statement_expression_keep (depth : Nat) :
    (∀ place, Keeps w (statement depth place)) ∧ ∀ place, Keeps w (expression depth place) := by
  induction depth with
  | zero => exact ⟨fun place s watched => watched, fun place s watched => watched⟩
  | succ depth ih =>
    obtain ⟨statements, expressions⟩ := ih
    refine ⟨fun place => ?_, fun place => ?_⟩
    · rw [statement]
      exact statementStep_keeps statements expressions place
    · rw [expression]
      exact (simple_keeps statements expressions place).rightChain keeps_nothing rfl _ _

theorem program_keeps (depth : Nat) : Keeps w (program depth) := by
  intro s watched
  simp only [program, ends_bind, ends_peek, ends_pure]
  exact ((statement_expression_keep depth).1 .outside).statements _ _ watched

end Grammar
end Tide
