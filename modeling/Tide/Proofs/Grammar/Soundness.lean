import Tide.Proofs.Grammar.Progress

/-!
# Every parse is an application of the rules

A parser follows a goal when each of its successes is one that the rules allow. The parsers of the
grammar take the parsers for whole statements and expressions as arguments, so each lemma assumes
that those two follow their goals; the knot is tied at the end by induction on the depth.
-/
namespace Tide

namespace Grammar

def Follows {shape : Shape} (goal : Goal shape) (p : Parser shape.Result) : Prop :=
  ∀ ⦃s : Stream⦄ ⦃result : shape.Result⦄ ⦃t : Stream⦄, p s = .ok (result, t) → Reads goal s result t

/-! ### Lists of names -/

theorem names_follow (limit : Nat) :
    Follows .names (Parser.commaSeparated (do return (← Parser.expect .ident).lexeme) limit) := by
  -- On the limit: a parse that succeeded has not come to it. What the parser tested on its way is
  -- what the rule asks for.
  induction limit with
  | zero =>
    intro s result t parsed
    simp [Parser.commaSeparated] at parsed
  | succ limit ih =>
    intro s result t parsed
    simp only [Parser.commaSeparated, Parser.bind_ok_iff, Parser.expect_ok_iff,
      Parser.pure_ok_iff, Parser.atSymbol_ok_iff, Prod.mk.injEq] at parsed
    obtain ⟨_, _, ⟨_, _, ⟨kind, rfl, rfl⟩, rfl, rfl⟩, _, _, ⟨rfl, rfl⟩, parsed⟩ := parsed
    split at parsed
    next comma =>
      simp only [Parser.bind_ok_iff, Parser.advance_ok_iff, Parser.pure_ok_iff,
        Prod.mk.injEq] at parsed
      obtain ⟨_, _, ⟨-, rfl⟩, _, _, rest, rfl, rfl⟩ := parsed
      exact .names kind (by simpa using comma) (ih rest)
    next noComma =>
      simp only [Parser.pure_ok_iff, Prod.mk.injEq] at parsed
      obtain ⟨rfl, rfl⟩ := parsed
      exact .lastName kind (by simpa using noComma)

theorem params_follow (limit : Nat) : Follows .params (params limit) := by
  intro s result t parsed
  simp only [params, Parser.listUpTo, Parser.bind_ok_iff, Parser.expectSymbol_ok_iff,
    Parser.atSymbol_ok_iff] at parsed
  obtain ⟨_, _, ⟨opening, -, rfl⟩, _, _, ⟨rfl, rfl⟩, parsed⟩ := parsed
  split at parsed
  next closing =>
    simp only [Parser.bind_ok_iff, Parser.advance_ok_iff, Parser.pure_ok_iff,
      Prod.mk.injEq] at parsed
    obtain ⟨_, _, ⟨-, rfl⟩, rfl, rfl⟩ := parsed
    exact .noParams opening (by simpa using closing)
  next filled =>
    simp only [Parser.bind_ok_iff, Parser.expectSymbol_ok_iff, Parser.pure_ok_iff,
      Prod.mk.injEq] at parsed
    obtain ⟨_, _, inside, _, _, ⟨closing, -, rfl⟩, rfl, rfl⟩ := parsed
    exact .params opening (by simpa using filled) (names_follow limit inside) closing

section

variable {statement expression : Place → Parser Node} {limit : Nat}
  (statementFollows : ∀ place, Follows (.statement place) (statement place))
  (expressionFollows : ∀ place, Follows (.expression place) (expression place))

/-! ### Bodies and choices -/

include statementFollows in
theorem statements_follow (nested : Bool) (place : Place) (rounds : Nat) :
    Follows (.statements nested place)
      (Parser.statements (stops nested) (statement place) rounds) := by
  induction rounds with
  | zero =>
    intro s result t parsed
    simp [Parser.statements] at parsed
  | succ rounds ih =>
    intro s result t parsed
    simp only [Parser.statements, Parser.bind_ok_iff, Parser.skipSeparators_ok_iff,
      Parser.peekKind_ok_iff] at parsed
    obtain ⟨_, _, rfl, _, _, ⟨rfl, rfl⟩, parsed⟩ := parsed
    split at parsed
    next stop =>
      simp only [Parser.pure_ok_iff, Prod.mk.injEq] at parsed
      obtain ⟨rfl, rfl⟩ := parsed
      exact .noStatements stop
    next going =>
      simp only [Parser.bind_ok_iff, Parser.pure_ok_iff, Prod.mk.injEq] at parsed
      obtain ⟨_, _, head, _, _, tail, rfl, rfl⟩ := parsed
      exact .statements (by simpa using going) (statementFollows place head) (ih tail)

include statementFollows in
theorem body_follows (place : Place) : Follows (.body place) (body statement limit place) := by
  intro s result t parsed
  simp only [body, Parser.bind_ok_iff, Parser.expectSymbol_ok_iff, Parser.pure_ok_iff,
    Prod.mk.injEq] at parsed
  obtain ⟨_, _, ⟨opening, -, rfl⟩, _, _, inside, _, _, ⟨closing, -, rfl⟩, rfl, rfl⟩ := parsed
  exact .body opening (statements_follow statementFollows true place limit inside) closing

include statementFollows expressionFollows

theorem branch_follows (place : Place) (start : Position) :
    Follows (.branch place start) (branch statement expression limit place start) := by
  intro s result t parsed
  simp only [branch, Parser.bind_ok_iff, Parser.expectSymbol_ok_iff,
    Parser.peek_ok_iff] at parsed
  obtain ⟨_, _, ⟨opening, rfl, rfl⟩, _, _, ⟨rfl, rfl⟩, parsed⟩ := parsed
  split at parsed
  next empty => simp at parsed
  next filled =>
    simp only [Parser.bind_ok_iff, Parser.expectSymbol_ok_iff, Parser.spanFrom_ok_iff,
      Parser.pure_ok_iff, Prod.mk.injEq] at parsed
    obtain ⟨_, _, inside, _, _, ⟨closing, -, rfl⟩, _, _, follow, _, _, ⟨rfl, rfl⟩, rfl, rfl⟩ :=
      parsed
    exact .branch opening filled (expressionFollows _ inside) closing
      (body_follows statementFollows place follow)

theorem alternatives_follow (place : Place) (rounds : Nat) :
    Follows (.alternatives place) (alternatives statement expression limit place rounds) := by
  induction rounds with
  | zero =>
    intro s result t parsed
    simp [alternatives] at parsed
  | succ rounds ih =>
    intro s result t parsed
    simp only [alternatives, Parser.bind_ok_iff, Parser.at_ok_iff] at parsed
    obtain ⟨_, _, ⟨rfl, rfl⟩, parsed⟩ := parsed
    -- Behind an `else` stands a branch if an `if` follows, and the last body otherwise.
    split at parsed
    next keyword =>
      simp only [decide_eq_true_eq] at keyword
      simp only [Parser.bind_ok_iff, Parser.advance_ok_iff, Parser.at_ok_iff] at parsed
      obtain ⟨_, _, ⟨-, rfl⟩, _, _, ⟨rfl, rfl⟩, parsed⟩ := parsed
      split at parsed
      next again =>
        simp only [Parser.bind_ok_iff, Parser.advance_ok_iff, Parser.pure_ok_iff,
          Prod.mk.injEq] at parsed
        obtain ⟨_, _, ⟨rfl, rfl⟩, _, _, head, _, _, tail, rfl, rfl⟩ := parsed
        exact .elseIf keyword (by simpa using again)
          (branch_follows statementFollows expressionFollows place _ head) (ih tail)
      next last =>
        simp only [Parser.bind_ok_iff, Parser.pure_ok_iff, Prod.mk.injEq] at parsed
        obtain ⟨_, _, follow, rfl, rfl⟩ := parsed
        exact .otherwise keyword (by simpa using last)
          (body_follows statementFollows place follow)
    next noElse =>
      simp only [Parser.pure_ok_iff, Prod.mk.injEq] at parsed
      obtain ⟨rfl, rfl⟩ := parsed
      exact .noAlternative (by simpa using noElse)

theorem choice_follows (place : Place) {s t : Stream} {result : Node}
    (keyword : s.head.kind = .keyword .if_)
    (parsed : choice statement expression limit place s = .ok (result, t)) :
    Reads (.choice place) s result t := by
  simp only [choice, Parser.bind_ok_iff, Parser.advance_ok_iff, Parser.spanFrom_ok_iff,
    Parser.pure_ok_iff, Prod.mk.injEq] at parsed
  obtain ⟨_, _, ⟨rfl, rfl⟩, _, _, head, _, _, tail, _, _, ⟨rfl, rfl⟩, rfl, rfl⟩ := parsed
  exact .choice keyword (branch_follows statementFollows expressionFollows place _ head)
    (alternatives_follow statementFollows expressionFollows place limit tail)

omit statementFollows

theorem ret_follows (place : Place) {s t : Stream} {result : Node}
    (keyword : s.head.kind = .keyword .return_)
    (parsed : ret expression place s = .ok (result, t)) : Reads (.ret place) s result t := by
  simp only [ret, Parser.bind_ok_iff, Parser.advance_ok_iff] at parsed
  obtain ⟨_, _, ⟨rfl, rfl⟩, parsed⟩ := parsed
  cases place with
  | outside => simp at parsed
  | nested => simp at parsed
  | functionBody =>
    simp only [Parser.bind_ok_iff, Parser.spanFrom_ok_iff, Parser.pure_ok_iff,
      Prod.mk.injEq] at parsed
    obtain ⟨_, _, follow, _, _, ⟨rfl, rfl⟩, rfl, rfl⟩ := parsed
    exact .ret keyword (expressionFollows .nested follow)

/-! ### Lists and entries -/

theorem items_follow (place : Place) (rounds : Nat) :
    Follows (.items place) (Parser.commaSeparated (expression place) rounds) := by
  induction rounds with
  | zero =>
    intro s result t parsed
    simp [Parser.commaSeparated] at parsed
  | succ rounds ih =>
    intro s result t parsed
    simp only [Parser.commaSeparated, Parser.bind_ok_iff, Parser.atSymbol_ok_iff] at parsed
    obtain ⟨_, _, head, _, _, ⟨rfl, rfl⟩, parsed⟩ := parsed
    split at parsed
    next comma =>
      simp only [Parser.bind_ok_iff, Parser.advance_ok_iff, Parser.pure_ok_iff,
        Prod.mk.injEq] at parsed
      obtain ⟨_, _, ⟨-, rfl⟩, _, _, tail, rfl, rfl⟩ := parsed
      exact .items (expressionFollows place head) (by simpa using comma) (ih tail)
    next noComma =>
      simp only [Parser.pure_ok_iff, Prod.mk.injEq] at parsed
      obtain ⟨rfl, rfl⟩ := parsed
      exact .item (expressionFollows place head) (by simpa using noComma)

theorem listUpTo_follows (closing : Symbol) (place : Place) :
    Follows (.list closing place) (Parser.listUpTo closing (expression place) limit) := by
  intro s result t parsed
  simp only [Parser.listUpTo, Parser.bind_ok_iff, Parser.atSymbol_ok_iff] at parsed
  obtain ⟨_, _, ⟨rfl, rfl⟩, parsed⟩ := parsed
  split at parsed
  next empty =>
    simp only [Parser.bind_ok_iff, Parser.advance_ok_iff, Parser.pure_ok_iff,
      Prod.mk.injEq] at parsed
    obtain ⟨_, _, ⟨-, rfl⟩, rfl, rfl⟩ := parsed
    exact .empty (by simpa using empty)
  next filled =>
    simp only [Parser.bind_ok_iff, Parser.expectSymbol_ok_iff, Parser.pure_ok_iff,
      Prod.mk.injEq] at parsed
    obtain ⟨_, _, inside, _, _, ⟨stop, -, rfl⟩, rfl, rfl⟩ := parsed
    exact .list (by simpa using filled) (items_follow expressionFollows place limit inside) stop

theorem properties_follow (place : Place) (rounds : Nat) :
    Follows (.properties place) (properties expression place rounds) := by
  induction rounds with
  | zero =>
    intro s result t parsed
    simp [properties] at parsed
  | succ rounds ih =>
    intro s result t parsed
    simp only [properties, Parser.bind_ok_iff, Parser.peekKind_ok_iff] at parsed
    obtain ⟨_, _, ⟨rfl, rfl⟩, parsed⟩ := parsed
    split at parsed
    next stop =>
      simp only [Parser.pure_ok_iff, Prod.mk.injEq] at parsed
      obtain ⟨rfl, rfl⟩ := parsed
      exact .noProperties (by simpa using stop)
    simp only [Parser.bind_ok_iff, Parser.expect_ok_iff, Parser.peekKind_ok_iff] at parsed
    obtain ⟨_, _, ⟨key, rfl, rfl⟩, _, _, ⟨found, rfl⟩, parsed⟩ := parsed
    split at parsed
    -- Behind a key: a comma, the end of the object, or a colon and a value.
    next =>
      simp only [Parser.bind_ok_iff, Parser.advance_ok_iff, Parser.pure_ok_iff,
        Prod.mk.injEq] at parsed
      obtain ⟨_, _, ⟨-, rfl⟩, _, _, tail, rfl, rfl⟩ := parsed
      exact .short key found (ih tail)
    next =>
      simp only [Parser.bind_ok_iff, Parser.pure_ok_iff, Prod.mk.injEq] at parsed
      obtain ⟨_, _, tail, rfl, rfl⟩ := parsed
      exact .lastShort key found (ih tail)
    next =>
      simp only [Parser.bind_ok_iff, Parser.expectSymbol_ok_iff, Parser.spanFrom_ok_iff,
        Parser.atSymbol_ok_iff] at parsed
      obtain ⟨_, _, ⟨colon, -, rfl⟩, _, _, follow, _, _, ⟨rfl, rfl⟩, _, _, ⟨rfl, rfl⟩, parsed⟩ :=
        parsed
      split at parsed
      next =>
        simp only [Parser.bind_ok_iff, Parser.expectSymbol_ok_iff, Parser.pure_ok_iff,
          Prod.mk.injEq] at parsed
        obtain ⟨_, _, ⟨comma, -, rfl⟩, _, _, tail, rfl, rfl⟩ := parsed
        exact .valued key colon (expressionFollows place follow) comma (ih tail)
      next closing =>
        simp only [Parser.bind_ok_iff, Parser.pure_ok_iff, Prod.mk.injEq] at parsed
        obtain ⟨_, _, tail, rfl, rfl⟩ := parsed
        exact .lastValued key colon (expressionFollows place follow) (by simpa using closing)
          (ih tail)

/-! ### Accesses -/

theorem accesses_follow (place : Place) (object : Node) (rounds : Nat) :
    Follows (.accesses place object) (accesses expression limit place object rounds) := by
  -- What is read so far becomes the object of the next access, so it is general in the induction.
  induction rounds generalizing object with
  | zero =>
    intro s result t parsed
    simp [accesses] at parsed
  | succ rounds ih =>
    intro s result t parsed
    simp only [accesses, Parser.bind_ok_iff, Parser.peekKind_ok_iff] at parsed
    obtain ⟨kind, _, ⟨found, rfl⟩, parsed⟩ := parsed
    split at parsed
    next =>
      simp only [call, Parser.bind_ok_iff, Parser.advance_ok_iff, Parser.spanFrom_ok_iff,
        Parser.pure_ok_iff, Prod.mk.injEq] at parsed
      obtain ⟨_, _, ⟨_, _, ⟨-, rfl⟩, _, _, inside, _, _, ⟨rfl, rfl⟩, rfl, rfl⟩, rest⟩ := parsed
      exact .call found (listUpTo_follows expressionFollows .rparen place inside) (ih _ rest)
    next =>
      simp only [property, Parser.bind_ok_iff, Parser.advance_ok_iff,
        Parser.peek_ok_iff] at parsed
      obtain ⟨_, _, ⟨_, _, ⟨-, rfl⟩, _, _, ⟨rfl, rfl⟩, made⟩, rest⟩ := parsed
      split at made
      next key =>
        simp only [Parser.bind_ok_iff, Parser.advance_ok_iff, Parser.pure_ok_iff,
          Prod.mk.injEq] at made
        obtain ⟨_, _, ⟨-, rfl⟩, rfl, rfl⟩ := made
        exact .property found key (ih _ rest)
      next => simp at made
    next =>
      simp only [index, Parser.bind_ok_iff, Parser.advance_ok_iff, Parser.expectSymbol_ok_iff,
        Parser.spanFrom_ok_iff, Parser.pure_ok_iff, Prod.mk.injEq] at parsed
      obtain ⟨_, _, ⟨_, _, ⟨-, rfl⟩, _, _, inside, _, _, ⟨closing, -, rfl⟩, _, _, ⟨rfl, rfl⟩,
        rfl, rfl⟩, rest⟩ := parsed
      exact .index found (expressionFollows place inside) closing (ih _ rest)
    next noCall noProperty noIndex =>
      simp only [Parser.pure_ok_iff, Prod.mk.injEq] at parsed
      obtain ⟨rfl, rfl⟩ := parsed
      subst found
      exact .noAccess noCall noProperty noIndex

omit expressionFollows in
theorem signed_follows {place : Place} {s t : Stream} {result : Node}
    (sign : s.head.kind = .symbol .minus ∨ s.head.kind = .symbol .plus)
    (parsed : signed s = .ok (result, t)) : Reads (.term place) s result t := by
  simp only [signed, Parser.bind_ok_iff, Parser.peek_ok_iff, Parser.peekSecond_ok_iff] at parsed
  obtain ⟨_, _, ⟨rfl, rfl⟩, _, _, ⟨rfl, rfl⟩, parsed⟩ := parsed
  split at parsed
  next kind =>
    simp only [Parser.bind_ok_iff, Parser.advance_ok_iff, number_ok_iff] at parsed
    obtain ⟨_, _, ⟨-, rfl⟩, _, _, ⟨-, rfl⟩, value, reading, rfl, rfl⟩ := parsed
    exact .signed sign kind reading
  next => simp at parsed

include statementFollows

theorem term_follows (place : Place) :
    Follows (.term place) (term statement expression limit place) := by
  intro s result t parsed
  simp only [term, Parser.bind_ok_iff, Parser.peek_ok_iff] at parsed
  obtain ⟨token, _, ⟨rfl, rfl⟩, parsed⟩ := parsed
  generalize found : s.head.kind = kind at parsed
  -- One case for each kind of token that a term can begin with; the others are refused.
  split at parsed
  next =>
    simp only [Parser.bind_ok_iff, Parser.advance_ok_iff, Parser.pure_ok_iff,
      Prod.mk.injEq] at parsed
    obtain ⟨_, _, ⟨-, rfl⟩, rfl, rfl⟩ := parsed
    exact .name found
  next =>
    simp only [Parser.bind_ok_iff, Parser.advance_ok_iff, number_ok_iff] at parsed
    obtain ⟨_, _, ⟨-, rfl⟩, value, reading, rfl, rfl⟩ := parsed
    exact .number (by rw [found]; rfl) reading
  next =>
    simp only [Parser.bind_ok_iff, Parser.advance_ok_iff, number_ok_iff] at parsed
    obtain ⟨_, _, ⟨-, rfl⟩, value, reading, rfl, rfl⟩ := parsed
    exact .number (by rw [found]; rfl) reading
  next => exact signed_follows (.inl found) parsed
  next => exact signed_follows (.inr found) parsed
  next =>
    simp only [Parser.bind_ok_iff, Parser.advance_ok_iff, Parser.pure_ok_iff,
      Prod.mk.injEq] at parsed
    obtain ⟨_, _, ⟨-, rfl⟩, rfl, rfl⟩ := parsed
    exact .text found
  next =>
    simp only [parenthesized, Parser.bind_ok_iff, Parser.advance_ok_iff,
      Parser.expectSymbol_ok_iff, Parser.pure_ok_iff, Prod.mk.injEq] at parsed
    obtain ⟨_, _, ⟨-, rfl⟩, _, _, inside, _, _, ⟨closing, -, rfl⟩, rfl, rfl⟩ := parsed
    exact .parenthesized found (expressionFollows place inside) closing
  next =>
    simp only [lambda, Parser.bind_ok_iff, Parser.advance_ok_iff, Parser.fuse_ok_iff,
      Parser.expect_ok_iff, Parser.spanFrom_ok_iff, Parser.pure_ok_iff, Prod.mk.injEq] at parsed
    obtain ⟨_, _, ⟨rfl, rfl⟩, _, _, parameters, _, _, rfl, _, _, ⟨arrow, -, rfl⟩, _, _, follow,
      _, _, ⟨rfl, rfl⟩, rfl, rfl⟩ := parsed
    exact .lambda found (params_follow limit parameters) arrow (expressionFollows .nested follow)
  next => exact .choiceTerm (choice_follows statementFollows expressionFollows place found parsed)
  next => exact .retTerm (ret_follows expressionFollows place found parsed)
  next =>
    simp only [del, Parser.bind_ok_iff, Parser.advance_ok_iff, Parser.peek_ok_iff] at parsed
    obtain ⟨_, _, ⟨rfl, rfl⟩, _, _, ⟨rfl, rfl⟩, parsed⟩ := parsed
    split at parsed
    next name =>
      simp only [Parser.bind_ok_iff, Parser.advance_ok_iff, Parser.pure_ok_iff,
        Prod.mk.injEq] at parsed
      obtain ⟨_, _, ⟨-, rfl⟩, rfl, rfl⟩ := parsed
      exact .del found name
    next => simp at parsed
  next =>
    simp only [raise, Parser.bind_ok_iff, Parser.advance_ok_iff, Parser.peek_ok_iff] at parsed
    obtain ⟨_, _, ⟨rfl, rfl⟩, _, _, ⟨rfl, rfl⟩, parsed⟩ := parsed
    split at parsed
    next message =>
      simp only [Parser.bind_ok_iff, Parser.advance_ok_iff, Parser.pure_ok_iff,
        Prod.mk.injEq] at parsed
      obtain ⟨_, _, ⟨-, rfl⟩, rfl, rfl⟩ := parsed
      exact .raise found message
    next => simp at parsed
  all_goals simp at parsed

theorem accessed_follows (place : Place) :
    Follows (.accessed place) (accessed statement expression limit place) := by
  intro s result t parsed
  simp only [accessed, Parser.bind_ok_iff] at parsed
  obtain ⟨_, _, head, rest⟩ := parsed
  exact .accessed (term_follows statementFollows expressionFollows place head)
    (accesses_follow expressionFollows place _ limit rest)

end

/-! ### Chains of operators -/

theorem rightChain_follows (level : Level) (place : Place) (right : level.groupsLeft = false)
    {prepare : Parser Unit} {operand : Parser Node}
    (prepares : ∀ {s t u}, prepare s = .ok (u, t) → level.prepare s = t)
    (operandFollows : Follows (level.operand place) operand) (rounds : Nat) :
    Follows (.chain level place)
      (Parser.rightChain prepare level.isOperator operand level.combine rounds) := by
  induction rounds with
  | zero =>
    intro s result t parsed
    simp [Parser.rightChain] at parsed
  | succ rounds ih =>
    intro s result t parsed
    simp only [Parser.rightChain, Parser.bind_ok_iff, Parser.peekKind_ok_iff] at parsed
    obtain ⟨_, _, first, _, _, prepared, _, _, ⟨rfl, rfl⟩, parsed⟩ := parsed
    obtain rfl := prepares prepared
    split at parsed
    next sign =>
      simp only [Parser.bind_ok_iff, Parser.advance_ok_iff, Parser.pure_ok_iff,
        Prod.mk.injEq] at parsed
      obtain ⟨_, _, ⟨rfl, rfl⟩, _, _, rest, rfl, rfl⟩ := parsed
      exact .right right (operandFollows first) sign (ih rest)
    next end_ =>
      simp only [Parser.pure_ok_iff, Prod.mk.injEq] at parsed
      obtain ⟨rfl, rfl⟩ := parsed
      exact .alone right (operandFollows first) (by simpa using end_)

theorem leftChain_follows (level : Level) (place : Place) {operand : Parser Node}
    (operandFollows : Follows (level.operand place) operand) (left : Node) (rounds : Nat) :
    Follows (.more level place left)
      (Parser.leftChain level.isOperator operand level.combine left rounds) := by
  induction rounds generalizing left with
  | zero =>
    intro s result t parsed
    simp [Parser.leftChain] at parsed
  | succ rounds ih =>
    intro s result t parsed
    simp only [Parser.leftChain, Parser.bind_ok_iff, Parser.peekKind_ok_iff] at parsed
    obtain ⟨_, _, ⟨rfl, rfl⟩, parsed⟩ := parsed
    split at parsed
    next sign =>
      simp only [Parser.bind_ok_iff, Parser.advance_ok_iff] at parsed
      obtain ⟨_, _, ⟨rfl, rfl⟩, _, _, next, rest⟩ := parsed
      exact .more sign (operandFollows next) (ih _ rest)
    next end_ =>
      simp only [Parser.pure_ok_iff, Prod.mk.injEq] at parsed
      obtain ⟨rfl, rfl⟩ := parsed
      exact .noMore (by simpa using end_)

section

variable {statement expression : Place → Parser Node} {limit : Nat}
  (statementFollows : ∀ place, Follows (.statement place) (statement place))
  (expressionFollows : ∀ place, Follows (.expression place) (expression place))

include statementFollows expressionFollows

theorem comparison_follows (place : Place) :
    Follows (.chain .comparison place) (comparison statement expression limit place) :=
  rightChain_follows .comparison place rfl Parser.fuse_ok_iff.mp
    (accessed_follows statementFollows expressionFollows place) limit

theorem logical_follows (place : Place) :
    Follows (.chain .logical place) (logical statement expression limit place) :=
  rightChain_follows .logical place rfl (fun done => by simpa [Level.prepare] using done)
    (comparison_follows statementFollows expressionFollows place) limit

theorem product_follows (place : Place) :
    Follows (.chain .product place) (product statement expression limit place) := by
  intro s result t parsed
  simp only [product, Parser.bind_ok_iff] at parsed
  obtain ⟨_, _, head, rest⟩ := parsed
  have operandFollows : Follows (Level.product.operand place)
      (logical statement expression limit place) :=
    logical_follows statementFollows expressionFollows place
  exact .left rfl (operandFollows head) (leftChain_follows .product place operandFollows _ limit rest)

theorem sum_follows (place : Place) :
    Follows (.chain .sum place) (sum statement expression limit place) := by
  intro s result t parsed
  simp only [sum, Parser.bind_ok_iff] at parsed
  obtain ⟨_, _, head, rest⟩ := parsed
  have operandFollows : Follows (Level.sum.operand place)
      (product statement expression limit place) :=
    product_follows statementFollows expressionFollows place
  exact .left rfl (operandFollows head) (leftChain_follows .sum place operandFollows _ limit rest)

theorem simple_follows (place : Place) :
    Follows (.simple place) (simple statement expression limit place) := by
  intro s result t parsed
  simp only [simple, Parser.bind_ok_iff, Parser.peekKind_ok_iff] at parsed
  obtain ⟨kind, _, ⟨found, rfl⟩, parsed⟩ := parsed
  split at parsed
  next =>
    simp only [object, Parser.bind_ok_iff, Parser.advance_ok_iff, Parser.expectSymbol_ok_iff,
      Parser.spanFrom_ok_iff, Parser.pure_ok_iff, Prod.mk.injEq] at parsed
    obtain ⟨_, _, ⟨rfl, rfl⟩, _, _, inside, _, _, ⟨closing, -, rfl⟩, _, _, ⟨rfl, rfl⟩, rfl,
      rfl⟩ := parsed
    exact .object found (properties_follow expressionFollows place limit inside) closing
  next =>
    simp only [array, Parser.bind_ok_iff, Parser.advance_ok_iff, Parser.spanFrom_ok_iff,
      Parser.pure_ok_iff, Prod.mk.injEq] at parsed
    obtain ⟨_, _, ⟨rfl, rfl⟩, _, _, inside, _, _, ⟨rfl, rfl⟩, rfl, rfl⟩ := parsed
    exact .array found (listUpTo_follows expressionFollows .rbracket place inside)
  next noObject noArray =>
    subst found
    exact .simple noObject noArray (sum_follows statementFollows expressionFollows place parsed)

theorem assignment_follows (place : Place) :
    Follows (.expression place) (assignment statement expression limit place) :=
  rightChain_follows .assignment place rfl (fun done => by simpa [Level.prepare] using done)
    (simple_follows statementFollows expressionFollows place) limit

/-! ### Statements -/

omit expressionFollows in
theorem declaration_follows (place : Place) {s t : Stream} {result : Node}
    (marker : s.head.kind = .symbol .question ∨ s.head.kind = .symbol .bang)
    (parsed : declaration statement place s = .ok (result, t)) :
    Reads (.statement place) s result t := by
  simp only [declaration, Parser.bind_ok_iff, Parser.advance_ok_iff, Parser.expect_ok_iff,
    Parser.peek_ok_iff] at parsed
  obtain ⟨_, _, ⟨rfl, rfl⟩, _, _, ⟨name, rfl, rfl⟩, _, _, ⟨rfl, rfl⟩, parsed⟩ := parsed
  generalize found : s.tail.tail.head.kind = kind at parsed
  -- Behind the name stands a separator, which a constant refuses, or a value.
  split at parsed
  next =>
    split at parsed
    next => simp at parsed
    next noConstant =>
      simp only [Parser.bind_ok_iff, Parser.advance_ok_iff, Parser.spanFrom_ok_iff,
        Parser.pure_ok_iff, Prod.mk.injEq] at parsed
      obtain ⟨_, _, ⟨-, rfl⟩, _, _, ⟨rfl, rfl⟩, rfl, rfl⟩ := parsed
      simp only [noConstant, decide_false]
      exact .bare (marker.resolve_right noConstant) name found
  next =>
    simp only [Parser.bind_ok_iff, Parser.advance_ok_iff, Parser.spanFrom_ok_iff,
      Parser.pure_ok_iff, Prod.mk.injEq] at parsed
    obtain ⟨_, _, ⟨-, rfl⟩, _, _, initial, _, _, ⟨rfl, rfl⟩, rfl, rfl⟩ := parsed
    refine .declare _ ?_ name found (statementFollows place.inner initial)
    rcases marker with marker | marker <;> simp [marker]
  next => simp at parsed

theorem statementStep_follows (place : Place) :
    Follows (.statement place) (statementStep statement expression limit place) := by
  intro s result t parsed
  simp only [statementStep, Parser.bind_ok_iff, Parser.peekKind_ok_iff] at parsed
  obtain ⟨kind, _, ⟨found, rfl⟩, parsed⟩ := parsed
  split at parsed
  next => exact declaration_follows statementFollows place (.inl found) parsed
  next => exact declaration_follows statementFollows place (.inr found) parsed
  next =>
    simp only [function, Parser.bind_ok_iff, Parser.advance_ok_iff, Parser.expect_ok_iff,
      Parser.spanFrom_ok_iff, Parser.pure_ok_iff, Prod.mk.injEq] at parsed
    obtain ⟨_, _, ⟨rfl, rfl⟩, _, _, ⟨name, rfl, rfl⟩, _, _, parameters, _, _, inside, _, _,
      ⟨rfl, rfl⟩, rfl, rfl⟩ := parsed
    exact .function found name (params_follow limit parameters)
      (body_follows statementFollows .functionBody inside)
  next =>
    exact .choiceStatement (choice_follows statementFollows expressionFollows place found parsed)
  next => exact .retStatement (ret_follows expressionFollows place found parsed)
  next noQuestion noBang noFunction noChoice noReturn =>
    -- The tests that failed are those for what opens a statement.
    refine .expressionStatement ?_ (expressionFollows place.inner parsed)
    rw [found]
    unfold opensStatement
    split <;> simp_all

end

/-! ### The whole grammar -/

theorem statement_expression_follow (depth : Nat) (place : Place) :
    Follows (.statement place) (statement depth place) ∧
      Follows (.expression place) (expression depth place) := by
  -- Statements and expressions contain each other, so both are settled together, one depth from the
  -- last.
  induction depth generalizing place with
  | zero =>
    constructor
    · intro s result t parsed
      simp [statement] at parsed
    · intro s result t parsed
      simp [expression] at parsed
  | succ depth ih =>
    have statementFollows := fun place => (ih place).1
    have expressionFollows := fun place => (ih place).2
    constructor
    · intro s result t parsed
      rw [statement] at parsed
      exact statementStep_follows statementFollows expressionFollows place parsed
    · intro s result t parsed
      rw [expression] at parsed
      exact assignment_follows statementFollows expressionFollows place parsed

/-- A program that parses was read by the rules, up to an end. -/
theorem program_follows {depth : Nat} {s t : Stream} {node : Node}
    (parsed : program depth s = .ok (node, t)) :
    ∃ statements, node = .program ⟨s.head.span.start, t.head.span.stop⟩ statements ∧
      Reads (.statements false .outside) s statements t := by
  simp only [program, Parser.bind_ok_iff, Parser.peek_ok_iff, Parser.pure_ok_iff,
    Prod.mk.injEq] at parsed
  obtain ⟨_, _, ⟨rfl, rfl⟩, statements, _, whole, _, _, ⟨rfl, rfl⟩, rfl, rfl⟩ := parsed
  refine ⟨statements, rfl, ?_⟩
  have statementFollows := fun place => (statement_expression_follow depth place).1
  exact statements_follow statementFollows false .outside depth whole

end Grammar
end Tide
