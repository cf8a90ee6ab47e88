import Tide.Proofs.Grammar.Alignment

/-!
# The grammar in step

Each parser of the grammar runs in step with itself on aligned streams, whatever bounds the two
runs have, as long as both bounds cover the tokens that are left. One statement is made for each
parser, with what it needs of the parsers for whole statements and expressions as hypotheses. Those
are called behind at least one token, so they may be in step for fewer tokens; a statement is never
called behind less than two. The knot is tied by induction on the number of tokens.
-/
namespace Tide

namespace Grammar

open Tide.Alignment

variable {l : Alignment}

theorem diagnostic_eq {cause cause' : SyntaxFault} (code : cause.code = cause'.code)
    (hint : cause.hint = cause'.hint) (text : cause.text = cause'.text) :
    cause.diagnostic .zero = cause'.diagnostic .zero := by
  simp [SyntaxFault.diagnostic, code, hint, text]

theorem number_together {text : Bytes} {span span' : Span} {s t u : Stream} {least : Nat}
    (aligned : l.stream s u) (place : l.span span span') (less : s.reach + least ≤ t.reach) :
    l.Together (number text span) (number text span') s u (l.After l.node least t) := by
  unfold number
  split
  next => exact together_pure ⟨l.congruent.number place, aligned, less⟩
  next => exact together_fail rfl place

theorem params_inStep (bound : Nat) {limit limit' : Nat} (enough : bound ≤ limit)
    (enough' : bound ≤ limit') : l.InStep Eq 1 bound (params limit) (params limit') := by
  have name : l.InStep Eq 1 bound (do return (← Parser.expect .ident).lexeme)
      (do return (← Parser.expect .ident).lexeme) := by
    intro s u aligned near
    apply Together.expect (by simp) aligned
    intro behind taken
    exact together_pure ⟨(l.head aligned).lexeme, behind, taken.le⟩
  intro s u aligned near
  simp only [params]
  apply Together.expectSymbol aligned
  intro behind taken
  apply (name.listUpTo _ enough enough' behind (by omega)).mono
  rintro names names' t v ⟨alike, aligned, less⟩
  exact ⟨List.forall₂_eq_eq_eq ▸ alike, aligned, by omega⟩

section

variable {s u : Stream} (aligned : l.stream s u) (inside : s.head.kind ≠ .eof)

include aligned inside

/-- One token, and then another of a wanted kind. -/
theorem pair_together {kind : Kind} {cause : Token → SyntaxFault}
    {result result' : Token → Token → Node} (noEnd : kind ≠ .eof)
    (same : ∀ {a b : Token}, l.Token a b → (cause a).diagnostic .zero = (cause b).diagnostic .zero)
    (made : ∀ {a b c d : Token}, l.Token a b → l.Token c d → l.node (result a c) (result' b d)) :
    l.Together (do
      let first ← Parser.advance
      let second ← Parser.peek
      if second.kind = kind then
        let _ ← Parser.advance
        return result first second
      Parser.fail (cause second) second.span) (do
      let first ← Parser.advance
      let second ← Parser.peek
      if second.kind = kind then
        let _ ← Parser.advance
        return result' first second
      Parser.fail (cause second) second.span) s u (l.After l.node 1 s) := by
  obtain ⟨behind, taken⟩ := l.step aligned inside
  have second := l.head behind
  simp only [together_advance, together_peek, ← second.kind]
  split
  next found =>
    obtain ⟨behind, taken'⟩ := l.step behind (found ▸ noEnd)
    rw [together_advance]
    exact together_pure ⟨made (l.head aligned) second, behind, by omega⟩
  next => exact together_fail (same second) second.span

theorem del_together : l.Together del del s u (l.After l.node 1 s) := by
  apply pair_together aligned inside (by simp)
  · intro a b same
    exact diagnostic_eq rfl rfl (by simp [SyntaxFault.text, same.describe])
  · intro a b c d first second
    rw [second.lexeme]
    exact l.congruent.del ⟨first.span.1, second.span.2⟩

theorem raise_together : l.Together raise raise s u (l.After l.node 1 s) := by
  apply pair_together aligned inside (by simp)
  · intro a b same
    exact diagnostic_eq rfl rfl (by simp [SyntaxFault.text, same.describe])
  · intro a b c d first second
    rw [second.lexeme]
    exact l.congruent.raise ⟨first.span.1, second.span.2⟩

theorem property_together {object object' : Node} (alike : l.node object object') :
    l.Together (property object) (property object') s u (l.After l.node 1 s) := by
  apply pair_together aligned inside (by simp)
  · intro a b same
    exact diagnostic_eq rfl rfl (by simp [SyntaxFault.text, same.describe])
  · intro a b c d first second
    rw [second.lexeme]
    exact l.congruent.member (l.congruent.join (l.congruent.placed alike) second.span) alike
      (l.congruent.name second.span)

theorem signed_together : l.Together signed signed s u (l.After l.node 1 s) := by
  obtain ⟨behind, taken⟩ := l.step aligned inside
  have first := l.head aligned
  have second := l.head behind
  simp only [signed, together_peek, together_peekSecond, ← second.kind]
  split
  next numeric =>
    obtain ⟨behind, taken'⟩ := l.step behind fun atEnd => by simp [atEnd, Kind.isNumeric] at numeric
    simp only [together_advance, first.lexeme, second.lexeme]
    exact number_together behind (l.congruent.join first.span second.span) (by omega)
  next =>
    exact together_fail (diagnostic_eq rfl rfl (by simp [SyntaxFault.text, first.lexeme]))
      first.span

end

section

variable {statement statement' expression expression' : Place → Parser Node}
  {bound limit limit' : Nat}
  (statementInStep : ∀ place, l.InStep l.node 1 (bound - 1) (statement place) (statement' place))
  (expressionInStep : ∀ place, l.InStep l.node 1 bound (expression place) (expression' place))
  (enough : bound + 1 ≤ limit) (enough' : bound + 1 ≤ limit')

/-! ### Bodies and choices -/

include enough enough'

include statementInStep in
theorem body_inStep (place : Place) :
    l.InStep l.nodes 1 bound (body statement limit place) (body statement' limit' place) := by
  intro s u aligned near
  simp only [body]
  apply Together.expectSymbol aligned
  intro behind taken
  have statements (stop : Kind → Bool) : l.InStep l.nodes 0 (bound - 1)
      (Parser.statements stop (statement place) limit)
      (Parser.statements stop (statement' place) limit') :=
    .statements stop (fun _ _ aligned _ near => statementInStep place aligned near) (by omega)
      (by omega)
  apply (statements _ behind (by omega)).bind
  rintro found found' t v ⟨alike, aligned, less⟩
  apply Together.expectSymbol aligned
  intro behind taken'
  exact together_pure ⟨alike, behind, by omega⟩

include statementInStep expressionInStep in
theorem branch_inStep (place : Place) {start start' : Position} (starts : l.position start start') :
    l.InStep l.Branch 1 (bound + 1) (branch statement expression limit place start)
      (branch statement' expression' limit' place start') := by
  intro s u aligned near
  have opening := l.head aligned
  simp only [branch]
  apply Together.expectSymbol aligned
  intro behind taken
  have next := l.head behind
  simp only [together_peek, ← next.kind]
  split
  next => exact ⟨rfl, l.congruent.join opening.span next.span⟩
  next =>
    apply (expressionInStep _ behind (by omega)).bind
    rintro condition condition' t v ⟨alike, aligned, less⟩
    apply Together.expectSymbol aligned
    intro behind taken'
    apply (body_inStep statementInStep enough enough' place behind (by omega)).bind
    rintro found found' t v ⟨statements, aligned, less'⟩
    rw [together_spanFrom]
    exact together_pure ⟨⟨⟨starts, l.behind aligned⟩, alike, statements⟩, aligned, by omega⟩

include statementInStep expressionInStep in
theorem alternatives_inStep (place : Place) {room rounds rounds' : Nat} (low : room ≤ bound + 1)
    (more : room ≤ rounds) (more' : room ≤ rounds') :
    l.InStep l.Alternatives 0 room (alternatives statement expression limit place rounds)
      (alternatives statement' expression' limit' place rounds') := by
  -- On the tokens that are left. Each branch takes some, so neither side runs out of rounds.
  induction room generalizing rounds rounds' with
  | zero => exact inStep_zero
  | succ room ih =>
    obtain ⟨rounds, rfl⟩ := Nat.exists_eq_add_of_le' more
    obtain ⟨rounds', rfl⟩ := Nat.exists_eq_add_of_le' more'
    intro s u aligned near
    rw [← Nat.add_assoc, ← Nat.add_assoc]
    simp only [alternatives, together_at, ← (l.head aligned).kind]
    split
    next keyword =>
      obtain ⟨behind, taken⟩ := l.step aligned (by simp [of_decide_eq_true keyword])
      have next := l.head behind
      simp only [together_advance, together_at, ← next.kind]
      split
      next again =>
        obtain ⟨behind, taken'⟩ := l.step behind (by simp [of_decide_eq_true again])
        rw [together_advance]
        apply (branch_inStep statementInStep expressionInStep enough enough' place next.span.1
          behind (by omega)).bind
        rintro first first' t v ⟨alike, aligned, less⟩
        apply (ih (by omega) (by omega) (by omega) aligned (by omega)).bind
        rintro rest rest' t v ⟨others, aligned, less'⟩
        exact together_pure ⟨⟨.cons alike others.branches, others.otherwise⟩, aligned, by omega⟩
      next =>
        apply (body_inStep statementInStep enough enough' place behind (by omega)).bind
        rintro found found' t v ⟨alike, aligned, less⟩
        exact together_pure ⟨⟨.nil, .some alike⟩, aligned, by omega⟩
    next => exact together_pure ⟨⟨.nil, .none⟩, aligned, Nat.le_refl _⟩

section

-- The parsers of this section take a token without looking at it. Where they are called there is
-- one.
variable {s u : Stream} (aligned : l.stream s u) (inside : s.head.kind ≠ .eof)
  (near : s.reach < bound + 1)

include aligned inside near

include statementInStep expressionInStep in
theorem choice_together (place : Place) :
    l.Together (choice statement expression limit place)
      (choice statement' expression' limit' place) s u (l.After l.node 1 s) := by
  obtain ⟨behind, taken⟩ := l.step aligned inside
  have start := (l.head aligned).span.1
  simp only [choice, together_advance]
  apply (branch_inStep statementInStep expressionInStep enough enough' place start behind
    (by omega)).bind
  rintro first first' t v ⟨alike, aligned, less⟩
  apply (alternatives_inStep statementInStep expressionInStep enough enough' place le_rfl enough
    enough' aligned (by omega)).bind
  rintro rest rest' t v ⟨others, aligned, less'⟩
  simp only [together_spanFrom]
  exact together_pure ⟨l.congruent.choice ⟨start, l.behind aligned⟩
    (.cons alike others.branches) others.otherwise, aligned, by omega⟩

include expressionInStep

omit enough enough' in
theorem ret_together (place : Place) :
    l.Together (ret expression place) (ret expression' place) s u (l.After l.node 1 s) := by
  obtain ⟨behind, taken⟩ := l.step aligned inside
  have start := (l.head aligned).span
  simp only [ret, together_advance]
  cases place with
  | outside => exact together_fail rfl start
  | nested => exact together_fail rfl start
  | functionBody =>
    apply (expressionInStep _ behind (by omega)).bind
    rintro value value' t v ⟨alike, aligned, less⟩
    rw [together_spanFrom]
    exact together_pure ⟨l.congruent.ret ⟨start.1, l.behind aligned⟩ alike, aligned, by omega⟩

/-! ### Terms -/

omit enough enough' in
theorem parenthesized_together (place : Place) :
    l.Together (parenthesized expression place) (parenthesized expression' place) s u
      (l.After l.node 1 s) := by
  obtain ⟨behind, taken⟩ := l.step aligned inside
  simp only [parenthesized, together_advance]
  apply (expressionInStep place behind (by omega)).bind
  rintro value value' t v ⟨alike, aligned, less⟩
  apply Together.expectSymbol aligned
  intro behind taken'
  exact together_pure ⟨alike, behind, by omega⟩

omit enough enough' in
theorem index_together (place : Place) {object object' : Node} (same : l.node object object') :
    l.Together (index expression place object) (index expression' place object') s u
      (l.After l.node 1 s) := by
  obtain ⟨behind, taken⟩ := l.step aligned inside
  simp only [index, together_advance]
  apply (expressionInStep place behind (by omega)).bind
  rintro key key' t v ⟨alike, aligned, less⟩
  apply Together.expectSymbol aligned
  intro behind taken'
  rw [together_spanFrom]
  exact together_pure ⟨l.congruent.member ⟨(l.congruent.placed same).1, l.behind behind⟩ same alike,
    behind, by omega⟩

theorem lambda_together :
    l.Together (lambda expression limit) (lambda expression' limit') s u (l.After l.node 1 s) := by
  obtain ⟨behind, taken⟩ := l.step aligned inside
  have start := (l.head aligned).span.1
  simp only [lambda, together_advance]
  apply (params_inStep bound (by omega) (by omega) behind (by omega)).bind
  rintro names _ t v ⟨rfl, aligned, less⟩
  have fewer := t.reach_fuse_le [.fatArrow]
  rw [together_fuse]
  apply Together.expect (by simp) (l.fuse aligned [.fatArrow])
  intro behind taken'
  apply (expressionInStep _ behind (by omega)).bind
  rintro value value' t v ⟨alike, aligned, less'⟩
  rw [together_spanFrom]
  exact together_pure ⟨l.congruent.lambda ⟨start, l.behind aligned⟩ alike, aligned, by omega⟩

theorem call_together (place : Place) {callee callee' : Node} (same : l.node callee callee') :
    l.Together (call expression limit place callee) (call expression' limit' place callee') s u
      (l.After l.node 1 s) := by
  obtain ⟨behind, taken⟩ := l.step aligned inside
  simp only [call, together_advance]
  apply ((expressionInStep place).listUpTo _ (by omega) (by omega) behind (by omega)).bind
  rintro arguments arguments' t v ⟨alike, aligned, less⟩
  rw [together_spanFrom]
  exact together_pure ⟨l.congruent.call ⟨(l.congruent.placed same).1, l.behind aligned⟩ same alike,
    aligned, by omega⟩

theorem array_together (place : Place) :
    l.Together (array expression limit place) (array expression' limit' place) s u
      (l.After l.node 1 s) := by
  obtain ⟨behind, taken⟩ := l.step aligned inside
  have start := (l.head aligned).span.1
  simp only [array, together_advance]
  apply ((expressionInStep place).listUpTo _ (by omega) (by omega) behind (by omega)).bind
  rintro elements elements' t v ⟨alike, aligned, less⟩
  rw [together_spanFrom]
  exact together_pure ⟨l.congruent.array ⟨start, l.behind aligned⟩ alike, aligned, by omega⟩

omit enough enough' aligned inside near in
theorem properties_inStep (place : Place) {room rounds rounds' : Nat} (low : room ≤ bound + 1)
    (more : room ≤ rounds) (more' : room ≤ rounds') :
    l.InStep (List.Forall₂ l.Property) 0 room (properties expression place rounds)
      (properties expression' place rounds') := by
  induction room generalizing rounds rounds' with
  | zero => exact inStep_zero
  | succ room ih =>
    obtain ⟨rounds, rfl⟩ := Nat.exists_eq_add_of_le' more
    obtain ⟨rounds', rfl⟩ := Nat.exists_eq_add_of_le' more'
    intro s u aligned near
    have key := l.head aligned
    have short : l.Property (.mk s.head.span s.head.lexeme .missing)
        (.mk u.head.span u.head.lexeme .missing) := ⟨key.span, key.lexeme, l.congruent.missing⟩
    -- The rest of the entries, behind one that is read.
    have rest {entry entry' : Property} (first : l.Property entry entry') {t v : Stream}
        (aligned : l.stream t v) (less : t.reach + 1 ≤ s.reach) :
        l.Together (do return entry :: (← properties expression place (rounds + room)))
          (do return entry' :: (← properties expression' place (rounds' + room))) t v
          (l.After (List.Forall₂ l.Property) 0 s) := by
      apply (ih (by omega) (by omega) (by omega) aligned (by omega)).bind
      rintro others others' t v ⟨alike, aligned, less'⟩
      exact together_pure ⟨.cons first alike, aligned, by omega⟩
    rw [← Nat.add_assoc, ← Nat.add_assoc]
    simp only [properties, together_peekKind, ← key.kind]
    split
    next => exact together_pure ⟨.nil, aligned, Nat.le_refl _⟩
    next =>
      apply Together.expect (by simp) aligned
      intro behind taken
      simp only [together_peekKind, ← (l.head behind).kind]
      split
      next comma =>
        obtain ⟨behind, taken'⟩ := l.step behind (by simp [comma])
        rw [together_advance]
        exact rest short behind (by omega)
      next => exact rest short behind (by omega)
      next =>
        apply Together.expectSymbol behind
        intro behind taken'
        apply (expressionInStep place behind (by omega)).bind
        rintro value value' t v ⟨alike, aligned, less⟩
        have entry : l.Property (.mk ⟨s.head.span.start, t.behind⟩ s.head.lexeme value)
            (.mk ⟨u.head.span.start, v.behind⟩ u.head.lexeme value') :=
          ⟨⟨key.span.1, l.behind aligned⟩, key.lexeme, alike⟩
        simp only [together_spanFrom, together_atSymbol, ← (l.head aligned).kind]
        split
        next =>
          apply Together.expectSymbol aligned
          intro behind taken''
          exact rest entry behind (by omega)
        next => exact rest entry aligned (by omega)

theorem object_together (place : Place) :
    l.Together (object expression limit place) (object expression' limit' place) s u
      (l.After l.node 1 s) := by
  obtain ⟨behind, taken⟩ := l.step aligned inside
  have start := (l.head aligned).span.1
  simp only [object, together_advance]
  apply (properties_inStep expressionInStep place le_rfl enough enough' behind (by omega)).bind
  rintro entries entries' t v ⟨alike, aligned, less⟩
  apply Together.expectSymbol aligned
  intro behind taken'
  rw [together_spanFrom]
  exact together_pure ⟨l.congruent.object ⟨start, l.behind behind⟩ alike, behind, by omega⟩

end

include expressionInStep

theorem accesses_inStep (place : Place) {object object' : Node} (same : l.node object object')
    {room rounds rounds' : Nat} (low : room ≤ bound + 1) (more : room ≤ rounds)
    (more' : room ≤ rounds') :
    l.InStep l.node 0 room (accesses expression limit place object rounds)
      (accesses expression' limit' place object' rounds') := by
  induction room generalizing rounds rounds' object object' with
  | zero => exact inStep_zero
  | succ room ih =>
    obtain ⟨rounds, rfl⟩ := Nat.exists_eq_add_of_le' more
    obtain ⟨rounds', rfl⟩ := Nat.exists_eq_add_of_le' more'
    intro s u aligned near
    -- Whatever the access is, it takes a token, and the rest is read around its result.
    have again {access access' : Parser Node}
        (first : l.Together access access' s u (l.After l.node 1 s)) :
        l.Together (access >>= fun next => accesses expression limit place next (rounds + room))
          (access' >>= fun next => accesses expression' limit' place next (rounds' + room)) s u
          (l.After l.node 0 s) := by
      apply first.bind
      rintro next next' t v ⟨alike, aligned, less⟩
      apply (ih alike (by omega) (by omega) (by omega) aligned (by omega)).mono
      rintro whole whole' t v ⟨alike, aligned, less'⟩
      exact ⟨alike, aligned, by omega⟩
    rw [← Nat.add_assoc, ← Nat.add_assoc]
    simp only [accesses, together_peekKind, ← (l.head aligned).kind]
    split
    next opening =>
      exact again (call_together expressionInStep enough enough' aligned (by simp [opening])
        (by omega) place same)
    next point => exact again (property_together aligned (by simp [point]) same)
    next opening =>
      exact again (index_together expressionInStep aligned (by simp [opening]) (by omega) place
        same)
    next => exact together_pure ⟨same, aligned, Nat.le_refl _⟩

include statementInStep

theorem term_inStep (place : Place) :
    l.InStep l.node 1 (bound + 1) (term statement expression limit place)
      (term statement' expression' limit' place) := by
  intro s u aligned near
  have token := l.head aligned
  simp only [term, together_peek, ← token.kind]
  -- Both parsers look at the same kind, so they are in the same case.
  split
  next kind =>
    obtain ⟨behind, taken⟩ := l.step aligned (by simp [kind])
    rw [together_advance, token.lexeme]
    exact together_pure ⟨l.congruent.name token.span, behind, taken.le⟩
  next kind =>
    obtain ⟨behind, taken⟩ := l.step aligned (by simp [kind])
    rw [together_advance, token.lexeme]
    exact number_together behind token.span taken.le
  next kind =>
    obtain ⟨behind, taken⟩ := l.step aligned (by simp [kind])
    rw [together_advance, token.lexeme]
    exact number_together behind token.span taken.le
  next kind => exact signed_together aligned (by simp [kind])
  next kind => exact signed_together aligned (by simp [kind])
  next kind =>
    obtain ⟨behind, taken⟩ := l.step aligned (by simp [kind])
    rw [together_advance, token.lexeme]
    exact together_pure ⟨l.congruent.text token.span, behind, taken.le⟩
  next kind => exact parenthesized_together expressionInStep aligned (by simp [kind]) near place
  next kind => exact lambda_together expressionInStep enough enough' aligned (by simp [kind]) near
  next kind =>
    exact choice_together statementInStep expressionInStep enough enough' aligned (by simp [kind])
      near place
  next kind => exact ret_together expressionInStep aligned (by simp [kind]) near place
  next kind => exact del_together aligned (by simp [kind])
  next kind => exact raise_together aligned (by simp [kind])
  next => exact together_fail rfl token.span
  next => exact together_fail rfl token.span
  next =>
    exact together_fail (diagnostic_eq rfl rfl (by simp [SyntaxFault.text, token.describe]))
      token.span

theorem accessed_inStep (place : Place) :
    l.InStep l.node 1 (bound + 1) (accessed statement expression limit place)
      (accessed statement' expression' limit' place) := by
  intro s u aligned near
  simp only [accessed]
  apply (term_inStep statementInStep expressionInStep enough enough' place aligned near).bind
  rintro first first' t v ⟨alike, aligned, less⟩
  apply (accesses_inStep expressionInStep enough enough' place alike le_rfl enough enough' aligned
    (by omega)).mono
  rintro whole whole' t v ⟨alike, aligned, less'⟩
  exact ⟨alike, aligned, by omega⟩

/-! ### Operators -/

omit statementInStep expressionInStep enough enough' in
theorem operation_like {family : Family} {operator : Kind} {left left' right right' : Node}
    (first : l.node left left') (second : l.node right right') :
    l.node (operation family operator left right) (operation family operator left' right') :=
  l.congruent.operation (l.congruent.join (l.congruent.placed first) (l.congruent.placed second))
    first second

theorem logical_inStep (place : Place) :
    l.InStep l.node 1 (bound + 1) (logical statement expression limit place)
      (logical statement' expression' limit' place) :=
  have comparisons := (accessed_inStep statementInStep expressionInStep enough enough'
    place).rightChain isComparison (operation .comparison) rfl operation_like
    (inStep_fuse comparisonPairs _) enough enough'
  comparisons.rightChain isLogical (operation .logical) rfl operation_like (inStep_nothing _) enough
    enough'

theorem product_inStep (place : Place) :
    l.InStep l.node 1 (bound + 1) (product statement expression limit place)
      (product statement' expression' limit' place) := by
  have operand := logical_inStep statementInStep expressionInStep enough enough' place
  intro s u aligned near
  simp only [product]
  apply (operand aligned near).bind
  rintro first first' t v ⟨alike, aligned, less⟩
  apply (operand.leftChain isMultiplicative (operation .arithmetic) rfl operation_like enough
    enough' alike aligned (by omega)).mono
  rintro whole whole' t v ⟨alike, aligned, less'⟩
  exact ⟨alike, aligned, by omega⟩

theorem sum_inStep (place : Place) :
    l.InStep l.node 1 (bound + 1) (sum statement expression limit place)
      (sum statement' expression' limit' place) := by
  have operand := product_inStep statementInStep expressionInStep enough enough' place
  intro s u aligned near
  simp only [sum]
  apply (operand aligned near).bind
  rintro first first' t v ⟨alike, aligned, less⟩
  apply (operand.leftChain isAdditive (operation .arithmetic) rfl operation_like enough
    enough' alike aligned (by omega)).mono
  rintro whole whole' t v ⟨alike, aligned, less'⟩
  exact ⟨alike, aligned, by omega⟩

theorem simple_inStep (place : Place) :
    l.InStep l.node 1 (bound + 1) (simple statement expression limit place)
      (simple statement' expression' limit' place) := by
  intro s u aligned near
  simp only [simple, together_peekKind, ← (l.head aligned).kind]
  split
  next kind =>
    exact object_together expressionInStep enough enough' aligned (by simp [kind]) near place
  next kind =>
    exact array_together expressionInStep enough enough' aligned (by simp [kind]) near place
  next => exact sum_inStep statementInStep expressionInStep enough enough' place aligned near

theorem assignment_inStep (place : Place) :
    l.InStep l.node 1 (bound + 1) (assignment statement expression limit place)
      (assignment statement' expression' limit' place) := by
  apply (simple_inStep statementInStep expressionInStep enough enough' place).rightChain _ _ rfl ?_
    (inStep_nothing _) enough enough'
  intro kind target target' value value' left right
  exact l.congruent.assign ⟨(l.congruent.placed left).1, (l.congruent.placed right).2⟩ left right

/-! ### Statements -/

omit expressionInStep enough enough'

section

variable {s u : Stream} (aligned : l.stream s u) (inside : s.head.kind ≠ .eof)
  (near : s.reach < bound + 1)

include aligned inside near

theorem declaration_together (place : Place) :
    l.Together (declaration statement place) (declaration statement' place) s u
      (l.After l.node 1 s) := by
  obtain ⟨behind, taken⟩ := l.step aligned inside
  have marker := l.head aligned
  have name := l.head behind
  simp only [declaration, together_advance]
  apply Together.expect (by simp) behind
  intro aligned taken'
  have next := l.head aligned
  simp only [together_peek, ← next.kind, ← marker.kind, name.lexeme]
  -- A separator ends a declaration without a value, which only a constant must have.
  split
  next separator =>
    split
    next => exact ⟨rfl, marker.span.1, l.behind aligned⟩
    next =>
      obtain ⟨behind, taken''⟩ := l.step aligned (by simp [separator])
      simp only [together_advance, together_spanFrom]
      exact together_pure ⟨l.congruent.declare ⟨marker.span.1, l.behind behind⟩
        l.congruent.missing, behind, by omega⟩
  next sign =>
    obtain ⟨behind, taken''⟩ := l.step aligned (by simp [sign])
    rw [together_advance]
    apply (statementInStep _ behind (by omega)).bind
    rintro value value' t v ⟨alike, aligned, less⟩
    rw [together_spanFrom]
    exact together_pure ⟨l.congruent.declare ⟨marker.span.1, l.behind aligned⟩ alike, aligned,
      by omega⟩
  next =>
    exact together_fail (diagnostic_eq rfl rfl (by simp [SyntaxFault.text, next.describe]))
      next.span

include enough enough'

theorem function_together :
    l.Together (function statement limit) (function statement' limit') s u
      (l.After l.node 1 s) := by
  obtain ⟨behind, taken⟩ := l.step aligned inside
  have start := (l.head aligned).span.1
  have name := l.head behind
  simp only [function, together_advance]
  apply Together.expect (by simp) behind
  intro behind taken'
  apply (params_inStep bound (by omega) (by omega) behind (by omega)).bind
  rintro names _ t v ⟨rfl, aligned, less⟩
  apply (body_inStep statementInStep enough enough' .functionBody aligned (by omega)).bind
  rintro statements statements' t v ⟨alike, aligned, less'⟩
  rw [together_spanFrom, name.lexeme]
  exact together_pure ⟨l.congruent.function ⟨start, l.behind aligned⟩ alike, aligned, by omega⟩

end

include enough enough'

/-- A statement may be an expression, which is then called in front of all its tokens. -/
theorem statementStep_inStep
    (expressionInStep : ∀ place,
      l.InStep l.node 1 (bound + 1) (expression place) (expression' place)) (place : Place) :
    l.InStep l.node 1 (bound + 1) (statementStep statement expression limit place)
      (statementStep statement' expression' limit' place) := by
  have shorter := fun place => (expressionInStep place).anti (Nat.le_succ bound)
  intro s u aligned near
  simp only [statementStep, together_peekKind, ← (l.head aligned).kind]
  split
  next kind => exact declaration_together statementInStep aligned (by simp [kind]) near place
  next kind => exact declaration_together statementInStep aligned (by simp [kind]) near place
  next kind =>
    exact function_together statementInStep enough enough' aligned (by simp [kind]) near
  next kind =>
    exact choice_together statementInStep shorter enough enough' aligned (by simp [kind]) near place
  next kind => exact ret_together shorter aligned (by simp [kind]) near place
  next => exact expressionInStep place.inner aligned near

end

/-- Twice the bound on the tokens left is depth enough for a statement, if it is three at least. An
expression needs one less. -/
theorem statement_expression_inStep (bound : Nat) :
    (∀ {depth depth'}, max (2 * bound) 3 ≤ depth + 1 → max (2 * bound) 3 ≤ depth' + 1 → ∀ place,
      l.InStep l.node 1 bound (expression depth place) (expression depth' place)) ∧
    ∀ {depth depth'}, max (2 * bound) 3 ≤ depth → max (2 * bound) 3 ≤ depth' → ∀ place,
      l.InStep l.node 1 bound (statement depth place) (statement depth' place) := by
  induction bound using Nat.strong_induction_on with
  | _ bound ih =>
    cases bound with
    | zero => exact ⟨fun _ _ _ => inStep_zero, fun _ _ _ => inStep_zero⟩
    | succ bound =>
      -- One level down, a token has been taken in front of an expression, and two in front of a
      -- statement. Where there are not as many, there is nothing to show.
      have innerExpression {depth depth' : Nat} (deep : max (2 * (bound + 1)) 3 ≤ depth + 2)
          (deep' : max (2 * (bound + 1)) 3 ≤ depth' + 2) (place : Place) :
          l.InStep l.node 1 bound (expression depth place) (expression depth' place) := by
        by_cases few : bound = 0
        · exact few ▸ inStep_zero
        · exact (ih bound (by omega)).1 (by omega) (by omega) place
      have innerStatement {depth depth' : Nat} (deep : max (2 * (bound + 1)) 3 ≤ depth + 2)
          (deep' : max (2 * (bound + 1)) 3 ≤ depth' + 2) (place : Place) :
          l.InStep l.node 1 (bound - 1) (statement depth place) (statement depth' place) := by
        by_cases few : bound - 1 = 0
        · exact few ▸ inStep_zero
        · exact (ih (bound - 1) (by omega)).2 (by omega) (by omega) place
      have expressions {depth depth' : Nat} (deep : max (2 * (bound + 1)) 3 ≤ depth + 1)
          (deep' : max (2 * (bound + 1)) 3 ≤ depth' + 1) (place : Place) :
          l.InStep l.node 1 (bound + 1) (expression depth place) (expression depth' place) := by
        obtain ⟨depth, rfl⟩ : ∃ less, depth = less + 1 := ⟨depth - 1, by omega⟩
        obtain ⟨depth', rfl⟩ : ∃ less, depth' = less + 1 := ⟨depth' - 1, by omega⟩
        rw [expression, expression]
        exact assignment_inStep (innerStatement deep deep') (innerExpression deep deep') (by omega)
          (by omega) place
      refine ⟨expressions, ?_⟩
      intro depth depth' deep deep' place
      obtain ⟨depth, rfl⟩ : ∃ less, depth = less + 1 := ⟨depth - 1, by omega⟩
      obtain ⟨depth', rfl⟩ : ∃ less, depth' = less + 1 := ⟨depth' - 1, by omega⟩
      rw [statement, statement]
      exact statementStep_inStep (innerStatement (by omega) (by omega)) (by omega) (by omega)
        (expressions deep deep') place

theorem program_together {s u : Stream} {depth depth' : Nat} (aligned : l.stream s u)
    (deep : 2 * s.reach + 2 ≤ depth) (deep' : 2 * s.reach + 2 ≤ depth') :
    l.Together (program depth) (program depth') s u fun a b _ _ => l.node a b := by
  have first := l.head aligned
  have statements : l.InStep l.nodes 0 (s.reach + 1)
      (Parser.statements (· = .eof) (statement depth .outside) depth)
      (Parser.statements (· = .eof) (statement depth' .outside) depth') := by
    refine InStep.statements _ ?_ (by omega) (by omega)
    intro t v aligned going near
    -- An end has stopped the loop, so there is a token, and the depth is four at least.
    have inside : t.head.kind ≠ .eof := by simpa using going
    have taken := Stream.reach_tail inside
    exact (statement_expression_inStep (s.reach + 1)).2 (by omega) (by omega) _ aligned near
  simp only [program, together_peek]
  apply (statements aligned (Nat.lt_succ_self _)).bind
  rintro found found' t v ⟨alike, aligned, -⟩
  simp only [together_peek]
  exact together_pure (l.congruent.program ⟨first.span.1, (l.head aligned).span.2⟩ alike)

theorem reach_le_depthFor (tokens : List Token) :
    2 * (Stream.ofTokens tokens).reach + 2 ≤ depthFor tokens := by
  have few : (Stream.ofTokens tokens).reach ≤ tokens.length :=
    (Stream.ofTokens tokens).reach_le_length
  simp only [depthFor]
  omega

end Grammar

namespace Program

variable {l : Alignment} {tokens others : List Token}

/-- Bounds that cover the tokens in front of the first end are not reached. -/
theorem parseWithin_together {depth depth' : Nat}
    (aligned : l.stream (.ofTokens tokens) (.ofTokens others))
    (deep : 2 * (Stream.ofTokens tokens).reach + 2 ≤ depth)
    (deep' : 2 * (Stream.ofTokens tokens).reach + 2 ≤ depth') :
    match parseWithin depth tokens, parseWithin depth' others with
    | .ok program, .ok program' => l.node program program'
    | .error (.fault cause span), .error (.fault cause' span') =>
      cause.diagnostic .zero = cause'.diagnostic .zero ∧ l.span span span'
    | _, _ => False := by
  have together := Grammar.program_together aligned deep deep'
  unfold Alignment.Together at together
  unfold parseWithin
  split at together
  next found found' =>
    rw [found, found']
    exact together
  next found found' =>
    rw [found, found']
    exact together
  next => exact together.elim

theorem parse_together (aligned : l.stream (.ofTokens tokens) (.ofTokens others)) :
    match parse tokens, parse others with
    | .ok program, .ok program' => l.node program program'
    | .error diagnostic, .error diagnostic' =>
      { diagnostic with span := .zero } = { diagnostic' with span := .zero } ∧
        l.span diagnostic.span diagnostic'.span
    | _, _ => False := by
  have together := parseWithin_together aligned (Grammar.reach_le_depthFor tokens)
    (l.reach_eq aligned ▸ Grammar.reach_le_depthFor others)
  unfold parse
  split at together
  next found found' =>
    rw [found, found']
    exact together
  next found found' =>
    rw [found, found']
    exact together
  next => exact together.elim

end Program
end Tide
