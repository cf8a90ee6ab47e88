import Tide.Proofs.Grammar.Progress
import Tide.Proofs.Token.Boundary
import Tide.Proofs.Tree.Forget

/-!
# Reading the same tokens in another place

What is read from a stream does not depend on where its tokens stand, only on what they are and
which of them touch. Nor does it depend on what follows, as long as that is the end of the source or
a separator: no rule takes either of them in the middle of something, with the one exception that a
separator completes a declaration without a value. So whatever is read in front of the end of a
source is read in the same way in front of a separator.
-/
namespace Tide

namespace Span

theorem offset_start_join (a b : Span) :
    (a.join b).start.offset = min a.start.offset b.start.offset := by
  unfold join
  dsimp only
  split <;> omega

theorem offset_stop_join (a b : Span) :
    (a.join b).stop.offset = max a.stop.offset b.stop.offset := by
  unfold join
  dsimp only
  split <;> omega

end Span

namespace Grammar

/-- Neither the end of the source nor a separator is part of an operator. -/
theorem fuse_closing_left {kind : Kind} (closing : kind = .eof ∨ kind = .symbol .semicolon)
    (other : Kind) : Kind.fuse kind other = none := by
  rcases closing with rfl | rfl
  · rfl
  · cases other with
    | symbol second => cases second <;> rfl
    | _ => rfl

theorem fuse_closing_right {kind : Kind} (closing : kind = .eof ∨ kind = .symbol .semicolon)
    (other : Kind) : Kind.fuse other kind = none := by
  rcases closing with rfl | rfl
  · cases other <;> rfl
  · cases other with
    | symbol first => cases first <;> rfl
    | _ => rfl

theorem fuse_eq_self {s : Stream} {first second : Token} {rest : List Token}
    (tokens : s.rest = first :: second :: rest) (apart : Kind.fuse first.kind second.kind = none)
    (wanted : List Fused) : s.fuse wanted = s := by
  unfold Stream.fuse
  rw [tokens]
  simp [apart]

theorem fuse_eq_self_of_short {s : Stream} {only : Token} (tokens : s.rest = [only])
    (wanted : List Fused) : s.fuse wanted = s := by
  unfold Stream.fuse
  rw [tokens]

variable {shift : Int} {last next : Token} {later : List Token}

/-- The same tokens, moved, in front of the end and in front of something else. -/
def Beside (shift : Int) (last next : Token) (later : List Token) (s u : Stream) : Prop :=
  ∃ tokens again, s.rest = tokens ++ [last] ∧ u.rest = again ++ next :: later ∧
    tokens.Forall₂ (Token.Moved shift) again

namespace Beside

variable {s u : Stream}

theorem step (beside : Beside shift last next later s u) (ended : last.kind = .eof)
    (inside : s.head.kind ≠ .eof) :
    u.head.kind = s.head.kind ∧ u.head.lexeme = s.head.lexeme ∧
      Beside shift last next later s.tail u.tail := by
  obtain ⟨tokens, again, left, right, pairs⟩ := beside
  cases pairs with
  | nil =>
    rw [Stream.head, left] at inside
    exact absurd ended inside
  | @cons t u' tokens again same pairs =>
    simp only [Stream.head, Stream.tail, left, right, List.cons_append, List.headD_cons]
    exact ⟨same.kind, same.lexeme, tokens, again, rfl, rfl, pairs⟩

theorem length_pos (beside : Beside shift last next later s u) : 0 < s.rest.length := by
  obtain ⟨tokens, again, left, -, -⟩ := beside
  simp [left]

theorem kind_eq_of_length (beside : Beside shift last next later s u) (long : 1 < s.rest.length) :
    u.head.kind = s.head.kind := by
  obtain ⟨tokens, again, left, right, pairs⟩ := beside
  cases pairs with
  | nil => simp [left] at long
  | cons same pairs => simp [Stream.head, left, right, same.kind]

/-- Tests that the end and a separator pass alike have one outcome. -/
theorem test (beside : Beside shift last next later s u) (ended : last.kind = .eof)
    (follow : next.kind = .eof ∨ next.kind = .symbol .semicolon) (accept : Kind → Bool)
    (alike : accept (.symbol .semicolon) = accept .eof) :
    accept u.head.kind = accept s.head.kind := by
  obtain ⟨tokens, again, left, right, pairs⟩ := beside
  cases pairs with
  | nil =>
    have there : u.head = next := by simp [Stream.head, right]
    have here : s.head = last := by simp [Stream.head, left]
    rw [there, here, ended]
    rcases follow with kind | kind
    · rw [kind]
    · rw [kind, alike]
  | cons same pairs =>
    simp only [Stream.head, left, right, List.cons_append, List.headD_cons, same.kind]

theorem kind_ne (beside : Beside shift last next later s u) (ended : last.kind = .eof)
    (follow : next.kind = .eof ∨ next.kind = .symbol .semicolon) {kind : Kind}
    (differs : s.head.kind ≠ kind) (noEnd : kind ≠ .eof) (noSeparator : kind ≠ .symbol .semicolon) :
    u.head.kind ≠ kind := by
  have same := beside.test ended follow (fun k => k = kind)
    (by simp [Ne.symm noEnd, Ne.symm noSeparator])
  simpa [differs] using same

theorem fuse (beside : Beside shift last next later s u) (ended : last.kind = .eof)
    (follow : next.kind = .eof ∨ next.kind = .symbol .semicolon) (wanted : List Fused) :
    Beside shift last next later (s.fuse wanted) (u.fuse wanted) := by
  have whole := beside
  obtain ⟨tokens, again, left, right, pairs⟩ := beside
  cases pairs with
  | nil =>
    -- Both are at their ends, where nothing is joined.
    rw [fuse_eq_self_of_short left]
    cases later with
    | nil => rwa [fuse_eq_self_of_short right]
    | cons second later => rwa [fuse_eq_self right (fuse_closing_left follow _)]
  | @cons t t' tokens again same pairs =>
    cases pairs with
    | nil =>
      rw [fuse_eq_self left (fuse_closing_right (.inl ended) _),
        fuse_eq_self right (fuse_closing_right follow _)]
      exact whole
    | @cons v v' tokens again same' pairs =>
      have touch : t'.span.stop.offset = v'.span.start.offset ↔
          t.span.stop.offset = v.span.start.offset := by
        rw [same.stop, same'.start]
        omega
      unfold Stream.fuse
      simp only [left, right, List.cons_append, touch, same.kind, same'.kind]
      split
      · split
        next operator _ =>
          split
          · refine ⟨_ :: tokens, _ :: again, rfl, rfl, .cons ⟨by simp, rfl, ?_, ?_, ?_⟩ pairs⟩
            · rw [same.lexeme, same'.lexeme]
            · simp only [Span.offset_start_join, same.start, same'.start]
              omega
            · simp only [Span.offset_stop_join, same.stop, same'.stop]
              omega
          · exact whole
        next => exact whole
      · exact whole

theorem prepare (beside : Beside shift last next later s u) (ended : last.kind = .eof)
    (follow : next.kind = .eof ∨ next.kind = .symbol .semicolon) (level : Level) :
    Beside shift last next later (level.prepare s) (level.prepare u) := by
  cases level with
  | comparison => exact beside.fuse ended follow _
  | _ => exact beside

/-- Separators are skipped alike, unless there is nothing else left. -/
theorem skip (beside : Beside shift last next later s u) (ended : last.kind = .eof)
    (inside : s.skip.head.kind ≠ .eof) : Beside shift last next later s.skip u.skip := by
  obtain ⟨tokens, again, left, right, pairs⟩ := beside
  obtain ⟨rest, behind⟩ := s
  obtain ⟨rest', behind'⟩ := u
  obtain rfl : rest = tokens ++ [last] := left
  obtain rfl : rest' = again ++ next :: later := right
  simp only [Stream.skip] at inside ⊢
  induction pairs generalizing behind behind' with
  | nil =>
    simp [Stream.skipWhile, ended, Stream.head] at inside
  | @cons t t' tokens again same pairs ih =>
    simp only [List.cons_append, Stream.skipWhile, same.kind] at inside ⊢
    split
    next separator =>
      rw [if_pos separator] at inside
      exact ih _ _ inside
    next => exact ⟨t :: tokens, t' :: again, rfl, rfl, .cons same pairs⟩

end Beside

/-! ### Goals and results without their places -/

/-- A result without its places. -/
def Shape.forget (width : Int → Int) {shape : Shape} (result : shape.Result) : shape.Result :=
  match shape, result with
  | .node, tree => Node.forget width tree
  | .nodes, trees => trees.map (Node.forget width)
  | .branch, found => Branch.forget width found
  | .branches, (found, otherwise) =>
    (found.map (Branch.forget width), otherwise.map (List.map (Node.forget width)))
  | .names, found => found
  | .properties, found => found.map (Property.forget width)

/-- The same goal up to places. Three goals are given something that was read before. -/
def Goal.Like {shape : Shape} (goal other : Goal shape) : Prop :=
  match shape, goal, other with
  | _, .branch place _, other => ∃ start, other = .branch place start
  | _, .more level place left, other =>
    ∃ again : Node, other = .more level place again ∧ again.unplaced = left.unplaced
  | _, .accesses place object, other =>
    ∃ again : Node, other = .accesses place again ∧ again.unplaced = object.unplaced
  | _, goal, other => other = goal

/-- The two goals that would stop at the end of the source did not stop there. -/
def Goal.Stays {shape : Shape} (goal : Goal shape) (t : Stream) : Prop :=
  match shape, goal with
  | _, .statements .. | _, .properties _ => t.head.kind ≠ .eof
  | _, _ => True

theorem Level.unplaced_combine (level : Level) (operator : Kind) {left right left' right' : Node}
    (first : left'.unplaced = left.unplaced) (second : right'.unplaced = right.unplaced) :
    (level.combine operator left' right').unplaced =
      (level.combine operator left right).unplaced := by
  cases level <;> simp_all [Level.combine, Grammar.operation, Node.unplaced, Node.forget]

theorem Level.isOperator_closing (level : Level) :
    level.isOperator (.symbol .semicolon) = level.isOperator .eof := by
  cases level <;> rfl

theorem Level.like_operand (level : Level) (place : Place) {other : Goal .node}
    (same : other = level.operand place) : (level.operand place).Like other := by
  subst same
  cases level <;> rfl

theorem Level.stays_operand (level : Level) (place : Place) (t : Stream) :
    (level.operand place).Stays t := by
  cases level <;> exact trivial

variable {s t u : Stream}

/-- Whatever is read in front of the end of a source is also read where the same tokens stand in
front of a separator. -/
theorem Reads.beside {shape : Shape} {goal other : Goal shape} {result : shape.Result}
    (read : Reads goal s result t) (ended : last.kind = .eof)
    (follow : next.kind = .eof ∨ next.kind = .symbol .semicolon)
    (beside : Beside shift last next later s u) (like : goal.Like other) (stays : goal.Stays t) :
    ∃ again v, Reads other u again v ∧ Beside shift last next later t v ∧
      Shape.forget id again = Shape.forget id result := by
  -- On the derivation. A token it names is stepped over in both streams, and a test it makes comes
  -- out alike in both, since no test tells the end of a source from a separator.
  induction read generalizing u with
  | @bare place s marker name separator =>
    obtain rfl : other = _ := like
    obtain ⟨kind, -, one⟩ := beside.step ended (by simp [marker])
    obtain ⟨kind', lexeme, two⟩ := one.step ended (by simp [name])
    obtain ⟨kind'', -, three⟩ := two.step ended (by simp [separator])
    refine ⟨_, _, .bare (kind.trans marker) (kind'.trans name) (kind''.trans separator), three, ?_⟩
    simp [Shape.forget, Node.forget, lexeme]
  | declare constant marker name sign initial ih =>
    obtain rfl : other = _ := like
    obtain ⟨kind, -, one⟩ := beside.step ended (by simp [marker])
    obtain ⟨kind', lexeme, two⟩ := one.step ended (by simp [name])
    obtain ⟨kind'', -, three⟩ := two.step ended (by simp [sign])
    obtain ⟨value, v, read, after, same⟩ := ih three rfl trivial
    refine ⟨_, v, .declare constant (kind.trans marker) (kind'.trans name) (kind''.trans sign) read,
      after, ?_⟩
    simpa [Shape.forget, Node.forget, lexeme] using same
  | function keyword name parameters inside ihParams ih =>
    obtain rfl : other = _ := like
    obtain ⟨kind, -, one⟩ := beside.step ended (by simp [keyword])
    obtain ⟨kind', lexeme, two⟩ := one.step ended (by simp [name])
    obtain ⟨names, v, readNames, three, sameNames⟩ := ihParams two rfl trivial
    obtain ⟨statements, w, read, after, same⟩ := ih three rfl trivial
    refine ⟨_, w, .function (kind.trans keyword) (kind'.trans name) readNames read, after, ?_⟩
    simp only [Shape.forget] at sameNames same ⊢
    simp [Node.forget, lexeme, sameNames, same]
  | choiceStatement whole ih =>
    obtain rfl : other = _ := like
    obtain ⟨node, v, read, after, same⟩ := ih beside rfl trivial
    exact ⟨node, v, .choiceStatement read, after, same⟩
  | retStatement whole ih =>
    obtain rfl : other = _ := like
    obtain ⟨node, v, read, after, same⟩ := ih beside rfl trivial
    exact ⟨node, v, .retStatement read, after, same⟩
  | expressionStatement plain whole ih =>
    obtain rfl : other = _ := like
    obtain ⟨node, v, read, after, same⟩ := ih beside rfl trivial
    have plain' := (beside.test ended follow opensStatement rfl).trans plain
    exact ⟨node, v, .expressionStatement plain' read, after, same⟩
  -- Here the two do differ: statements stop at the end and go on over a separator.
  | noStatements stop =>
    obtain rfl : other = _ := like
    have after := beside.skip ended stays
    obtain ⟨kind, -, -⟩ := after.step ended stays
    refine ⟨[], _, .noStatements ?_, after, rfl⟩
    rw [kind]
    exact stop
  | @statements nested place s first t rest u going head tail ihHead ihTail =>
    obtain rfl : other = _ := like
    have inside : s.skip.head.kind ≠ .eof := by
      intro atEnd
      simp [stops, atEnd] at going
    have one := beside.skip ended inside
    obtain ⟨kind, -, -⟩ := one.step ended inside
    obtain ⟨first', v, readFirst, two, sameFirst⟩ := ihHead one rfl trivial
    obtain ⟨rest', w, readRest, three, sameRest⟩ := ihTail two rfl stays
    refine ⟨_, w, .statements (by rw [kind]; exact going) readFirst readRest, three, ?_⟩
    simp only [Shape.forget] at sameFirst sameRest ⊢
    simp [sameFirst, sameRest]
  | @body place s statements t opening inside closing ih =>
    obtain rfl : other = _ := like
    obtain ⟨kind, -, one⟩ := beside.step ended (by simp [opening])
    have inner : t.head.kind ≠ .eof := by simp [closing]
    obtain ⟨found, v, read, two, same⟩ := ih one rfl inner
    obtain ⟨kind', -, three⟩ := two.step ended inner
    exact ⟨found, _, .body (kind.trans opening) read (kind'.trans closing), three, same⟩
  | branch opening filled inside closing body ih ihBody =>
    obtain ⟨start, rfl⟩ := like
    obtain ⟨kind, -, one⟩ := beside.step ended (by simp [opening])
    have filled' := one.kind_ne ended follow filled (by simp) (by simp)
    obtain ⟨condition, v, read, two, same⟩ := ih one rfl trivial
    obtain ⟨kind', -, three⟩ := two.step ended (by simp [closing])
    obtain ⟨found, w, readBody, four, sameBody⟩ := ihBody three rfl trivial
    refine ⟨_, w, .branch (kind.trans opening) filled' read (kind'.trans closing) readBody, four,
      ?_⟩
    simp only [Shape.forget] at same sameBody ⊢
    simp [Branch.forget, same, sameBody]
  | noAlternative end_ =>
    obtain rfl : other = _ := like
    exact ⟨_, u, .noAlternative (beside.kind_ne ended follow end_ (by simp) (by simp)), beside, rfl⟩
  | otherwise keyword final body ih =>
    obtain rfl : other = _ := like
    obtain ⟨kind, -, one⟩ := beside.step ended (by simp [keyword])
    obtain ⟨found, v, read, two, same⟩ := ih one rfl trivial
    refine ⟨_, v, .otherwise (kind.trans keyword)
      (one.kind_ne ended follow final (by simp) (by simp)) read, two, ?_⟩
    simp only [Shape.forget] at same ⊢
    simp [same]
  | elseIf keyword again head tail ihHead ihTail =>
    obtain rfl : other = _ := like
    obtain ⟨kind, -, one⟩ := beside.step ended (by simp [keyword])
    obtain ⟨kind', -, two⟩ := one.step ended (by simp [again])
    obtain ⟨first, v, read, three, same⟩ := ihHead two ⟨_, rfl⟩ trivial
    obtain ⟨rest, w, readRest, four, sameRest⟩ := ihTail three rfl trivial
    refine ⟨_, w, .elseIf (kind.trans keyword) (kind'.trans again) read readRest, four, ?_⟩
    simp only [Shape.forget, Prod.mk.injEq] at same sameRest ⊢
    simp [same, sameRest]
  | choice keyword head tail ihHead ihTail =>
    obtain rfl : other = _ := like
    obtain ⟨kind, -, one⟩ := beside.step ended (by simp [keyword])
    obtain ⟨first, v, read, two, same⟩ := ihHead one ⟨_, rfl⟩ trivial
    obtain ⟨rest, w, readRest, three, sameRest⟩ := ihTail two rfl trivial
    refine ⟨_, w, .choice (kind.trans keyword) read readRest, three, ?_⟩
    simp only [Shape.forget, Prod.mk.injEq] at same sameRest ⊢
    simp [Node.forget, same, sameRest]
  | ret keyword value ih =>
    obtain rfl : other = _ := like
    obtain ⟨kind, -, one⟩ := beside.step ended (by simp [keyword])
    obtain ⟨found, v, read, two, same⟩ := ih one rfl trivial
    refine ⟨_, v, .ret (kind.trans keyword) read, two, ?_⟩
    simp only [Shape.forget] at same ⊢
    simp [Node.forget, same]
  | @alone level place s operand t right first end_ ih =>
    obtain rfl : other = _ := like
    obtain ⟨found, v, read, one, same⟩ :=
      ih beside (level.like_operand place rfl) (level.stays_operand place t)
    have two := one.prepare ended follow level
    have end' := (two.test ended follow _ level.isOperator_closing).trans end_
    exact ⟨found, _, .alone right read end', two, same⟩
  | @right level place s left t operand u right first sign rest ih ihRest =>
    obtain rfl : other = _ := like
    obtain ⟨found, v, read, one, same⟩ :=
      ih beside (level.like_operand place rfl) (level.stays_operand place t)
    have two := one.prepare ended follow level
    have inside := level.ne_eof_of_isOperator sign
    obtain ⟨kind, -, three⟩ := two.step ended inside
    obtain ⟨operand', w, readRest, four, sameRest⟩ := ihRest three rfl trivial
    have sign' : level.isOperator (level.prepare v).head.kind = true := by rw [kind]; exact sign
    refine ⟨_, w, .right right read sign' readRest, four, ?_⟩
    rw [kind]
    exact level.unplaced_combine _ same sameRest
  | @left level place s first t result u left head rest ih ihRest =>
    obtain rfl : other = _ := like
    obtain ⟨found, v, read, one, same⟩ :=
      ih beside (level.like_operand place rfl) (level.stays_operand place t)
    obtain ⟨result', w, readRest, two, sameRest⟩ := ihRest one ⟨found, rfl, same⟩ trivial
    exact ⟨result', w, .left left read readRest, two, sameRest⟩
  | @noMore level place s left end_ =>
    obtain ⟨left', rfl, same⟩ := like
    have end' := (beside.test ended follow _ level.isOperator_closing).trans end_
    exact ⟨left', u, .noMore end', beside, same⟩
  | @more level place s left operand t result u sign next rest ih ihRest =>
    obtain ⟨left', rfl, sameLeft⟩ := like
    have inside := level.ne_eof_of_isOperator sign
    obtain ⟨kind, -, one⟩ := beside.step ended inside
    obtain ⟨found, v, read, two, same⟩ :=
      ih one (level.like_operand place rfl) (level.stays_operand place t)
    have combined := level.unplaced_combine s.head.kind sameLeft same
    obtain ⟨result', w, readRest, three, sameRest⟩ := ihRest two ⟨_, rfl, combined⟩ trivial
    refine ⟨result', w, .more (by rw [kind]; exact sign) read ?_, three, sameRest⟩
    rw [kind]
    exact readRest
  | @object place s entries t opening inside closing ih =>
    obtain rfl : other = _ := like
    obtain ⟨kind, -, one⟩ := beside.step ended (by simp [opening])
    have inner : t.head.kind ≠ .eof := by simp [closing]
    obtain ⟨found, v, read, two, same⟩ := ih one rfl inner
    obtain ⟨kind', -, three⟩ := two.step ended inner
    refine ⟨_, _, .object (kind.trans opening) read (kind'.trans closing), three, ?_⟩
    simp only [Shape.forget] at same ⊢
    simp [Node.forget, same]
  | array opening inside ih =>
    obtain rfl : other = _ := like
    obtain ⟨kind, -, one⟩ := beside.step ended (by simp [opening])
    obtain ⟨found, v, read, two, same⟩ := ih one rfl trivial
    refine ⟨_, v, .array (kind.trans opening) read, two, ?_⟩
    simp only [Shape.forget] at same ⊢
    simp [Node.forget, same]
  | simple noObject noArray whole ih =>
    obtain rfl : other = _ := like
    obtain ⟨found, v, read, one, same⟩ := ih beside rfl trivial
    exact ⟨found, v, .simple (beside.kind_ne ended follow noObject (by simp) (by simp))
      (beside.kind_ne ended follow noArray (by simp) (by simp)) read, one, same⟩
  | accessed head rest ih ihRest =>
    obtain rfl : other = _ := like
    obtain ⟨found, v, read, one, same⟩ := ih beside rfl trivial
    obtain ⟨result, w, readRest, two, sameRest⟩ := ihRest one ⟨found, rfl, same⟩ trivial
    exact ⟨result, w, .accessed read readRest, two, sameRest⟩
  | noAccess noCall noProperty noIndex =>
    obtain ⟨object', rfl, same⟩ := like
    exact ⟨object', u, .noAccess (beside.kind_ne ended follow noCall (by simp) (by simp))
      (beside.kind_ne ended follow noProperty (by simp) (by simp))
      (beside.kind_ne ended follow noIndex (by simp) (by simp)), beside, same⟩
  | call opening inside rest ih ihRest =>
    obtain ⟨object', rfl, sameObject⟩ := like
    obtain ⟨kind, -, one⟩ := beside.step ended (by simp [opening])
    obtain ⟨found, v, read, two, same⟩ := ih one rfl trivial
    obtain ⟨result, w, readRest, three, sameRest⟩ := ihRest two
      ⟨.call ⟨object'.span.start, v.behind⟩ object' found, rfl, by
        simp only [Shape.forget] at sameObject same ⊢
        simp [Node.unplaced, Node.forget, sameObject, same]⟩ trivial
    exact ⟨result, w, .call (kind.trans opening) read readRest, three, sameRest⟩
  | property point key rest ih =>
    obtain ⟨object', rfl, sameObject⟩ := like
    obtain ⟨kind, -, one⟩ := beside.step ended (by simp [point])
    obtain ⟨kind', lexeme, two⟩ := one.step ended (by simp [key])
    obtain ⟨result, w, readRest, three, sameRest⟩ := ih two
      ⟨.member (object'.span.join u.tail.head.span) object'
        (.name u.tail.head.span u.tail.head.lexeme) false, rfl, by
        simp only [Node.unplaced] at sameObject ⊢
        simp [Node.forget, lexeme, sameObject]⟩ trivial
    exact ⟨result, w, .property (kind.trans point) (kind'.trans key) readRest, three, sameRest⟩
  | index opening inside closing rest ih ihRest =>
    obtain ⟨object', rfl, sameObject⟩ := like
    obtain ⟨kind, -, one⟩ := beside.step ended (by simp [opening])
    obtain ⟨found, v, read, two, same⟩ := ih one rfl trivial
    obtain ⟨kind', -, three⟩ := two.step ended (by simp [closing])
    obtain ⟨result, w, readRest, four, sameRest⟩ := ihRest three
      ⟨.member ⟨object'.span.start, v.tail.behind⟩ object' found true, rfl, by
        simp only [Shape.forget] at sameObject same ⊢
        simp [Node.unplaced, Node.forget, sameObject, same]⟩ trivial
    exact ⟨result, w, .index (kind.trans opening) read (kind'.trans closing) readRest, four,
      sameRest⟩
  | name kind =>
    obtain rfl : other = _ := like
    obtain ⟨kind', lexeme, one⟩ := beside.step ended (by simp [kind])
    exact ⟨_, _, .name (kind'.trans kind), one, by simp [Shape.forget, Node.forget, lexeme]⟩
  | number kind reading =>
    obtain rfl : other = _ := like
    obtain ⟨kind', lexeme, one⟩ := beside.step ended (ne_eof_of_isNumeric kind)
    refine ⟨_, _, .number (by rw [kind']; exact kind) (by rw [lexeme]; exact reading), one, ?_⟩
    simp [Shape.forget, Node.forget, lexeme]
  | signed sign kind reading =>
    obtain rfl : other = _ := like
    obtain ⟨kind', lexeme, one⟩ :=
      beside.step ended (by rcases sign with sign | sign <;> simp [sign])
    obtain ⟨kind'', lexeme', two⟩ := one.step ended (ne_eof_of_isNumeric kind)
    refine ⟨_, _, .signed (by rw [kind']; exact sign) (by rw [kind'']; exact kind)
      (by rw [lexeme, lexeme']; exact reading), two, ?_⟩
    simp [Shape.forget, Node.forget, lexeme, lexeme']
  | text kind =>
    obtain rfl : other = _ := like
    obtain ⟨kind', lexeme, one⟩ := beside.step ended (by simp [kind])
    exact ⟨_, _, .text (kind'.trans kind), one, by simp [Shape.forget, Node.forget, lexeme]⟩
  | parenthesized opening inside closing ih =>
    obtain rfl : other = _ := like
    obtain ⟨kind, -, one⟩ := beside.step ended (by simp [opening])
    obtain ⟨found, v, read, two, same⟩ := ih one rfl trivial
    obtain ⟨kind', -, three⟩ := two.step ended (by simp [closing])
    exact ⟨found, _, .parenthesized (kind.trans opening) read (kind'.trans closing), three, same⟩
  | lambda keyword parameters arrow body ihParams ih =>
    obtain rfl : other = _ := like
    obtain ⟨kind, -, one⟩ := beside.step ended (by simp [keyword])
    obtain ⟨names, v, readNames, two, sameNames⟩ := ihParams one rfl trivial
    obtain ⟨kind', -, three⟩ := (two.fuse ended follow [.fatArrow]).step ended (by simp [arrow])
    obtain ⟨found, w, read, four, same⟩ := ih three rfl trivial
    refine ⟨_, w, .lambda (kind.trans keyword) readNames (kind'.trans arrow) read, four, ?_⟩
    simp only [Shape.forget] at sameNames same ⊢
    simp [Node.forget, sameNames, same]
  | choiceTerm whole ih =>
    obtain rfl : other = _ := like
    obtain ⟨found, v, read, one, same⟩ := ih beside rfl trivial
    exact ⟨found, v, .choiceTerm read, one, same⟩
  | retTerm whole ih =>
    obtain rfl : other = _ := like
    obtain ⟨found, v, read, one, same⟩ := ih beside rfl trivial
    exact ⟨found, v, .retTerm read, one, same⟩
  | del keyword name =>
    obtain rfl : other = _ := like
    obtain ⟨kind, -, one⟩ := beside.step ended (by simp [keyword])
    obtain ⟨kind', lexeme, two⟩ := one.step ended (by simp [name])
    exact ⟨_, _, .del (kind.trans keyword) (kind'.trans name), two, by
      simp [Shape.forget, Node.forget, lexeme]⟩
  | raise keyword message =>
    obtain rfl : other = _ := like
    obtain ⟨kind, -, one⟩ := beside.step ended (by simp [keyword])
    obtain ⟨kind', lexeme, two⟩ := one.step ended (by simp [message])
    exact ⟨_, _, .raise (kind.trans keyword) (kind'.trans message), two, by
      simp [Shape.forget, Node.forget, lexeme]⟩
  | item whole end_ ih =>
    obtain rfl : other = _ := like
    obtain ⟨found, v, read, one, same⟩ := ih beside rfl trivial
    refine ⟨_, v, .item read (one.kind_ne ended follow end_ (by simp) (by simp)), one, ?_⟩
    simp only [Shape.forget] at same ⊢
    simp [same]
  | items head comma tail ih ihTail =>
    obtain rfl : other = _ := like
    obtain ⟨found, v, read, one, same⟩ := ih beside rfl trivial
    obtain ⟨kind, -, two⟩ := one.step ended (by simp [comma])
    obtain ⟨rest, w, readRest, three, sameRest⟩ := ihTail two rfl trivial
    refine ⟨_, w, .items read (kind.trans comma) readRest, three, ?_⟩
    simp only [Shape.forget] at same sameRest ⊢
    simp [same, sameRest]
  | empty at_ =>
    obtain rfl : other = _ := like
    obtain ⟨kind, -, one⟩ := beside.step ended (by simp [at_])
    exact ⟨[], _, .empty (kind.trans at_), one, rfl⟩
  | list filled inside at_ ih =>
    obtain rfl : other = _ := like
    obtain ⟨found, v, read, one, same⟩ := ih beside rfl trivial
    obtain ⟨kind, -, two⟩ := one.step ended (by simp [at_])
    -- A list that is not empty takes a token, so the test was not made at the end.
    have filled' := beside.kind_eq_of_length
      (Nat.lt_of_lt_of_le (Nat.lt_add_of_pos_left one.length_pos) inside.length_le)
    exact ⟨found, _, .list (by rw [filled']; exact filled) read (kind.trans at_), two, same⟩
  | lastName kind end_ =>
    obtain rfl : other = _ := like
    obtain ⟨kind', lexeme, one⟩ := beside.step ended (by simp [kind])
    exact ⟨_, _, .lastName (kind'.trans kind) (one.kind_ne ended follow end_ (by simp) (by simp)),
      one, by simp [Shape.forget, lexeme]⟩
  | names kind comma tail ih =>
    obtain rfl : other = _ := like
    obtain ⟨kind', lexeme, one⟩ := beside.step ended (by simp [kind])
    obtain ⟨kind'', -, two⟩ := one.step ended (by simp [comma])
    obtain ⟨rest, v, read, three, same⟩ := ih two rfl trivial
    refine ⟨_, v, .names (kind'.trans kind) (kind''.trans comma) read, three, ?_⟩
    simp only [Shape.forget] at same ⊢
    simp [lexeme, same]
  | noParams opening closing =>
    obtain rfl : other = _ := like
    obtain ⟨kind, -, one⟩ := beside.step ended (by simp [opening])
    obtain ⟨kind', -, two⟩ := one.step ended (by simp [closing])
    exact ⟨[], _, .noParams (kind.trans opening) (kind'.trans closing), two, rfl⟩
  | params opening filled inside closing ih =>
    obtain rfl : other = _ := like
    obtain ⟨kind, -, one⟩ := beside.step ended (by simp [opening])
    obtain ⟨found, v, read, two, same⟩ := ih one rfl trivial
    obtain ⟨kind', -, three⟩ := two.step ended (by simp [closing])
    exact ⟨found, _, .params (kind.trans opening) (one.kind_ne ended follow filled (by simp)
      (by simp)) read (kind'.trans closing), three, same⟩
  -- Entries stop at the end as well, but take no separator.
  | noProperties end_ =>
    obtain rfl : other = _ := like
    obtain ⟨kind, -, -⟩ := beside.step ended stays
    exact ⟨[], u, .noProperties (by rw [kind]; exact end_), beside, rfl⟩
  | short key comma tail ih =>
    obtain rfl : other = _ := like
    obtain ⟨kind, lexeme, one⟩ := beside.step ended (by simp [key])
    obtain ⟨kind', -, two⟩ := one.step ended (by simp [comma])
    obtain ⟨rest, v, read, three, same⟩ := ih two rfl stays
    refine ⟨_, v, .short (kind.trans key) (kind'.trans comma) read, three, ?_⟩
    simp only [Shape.forget] at same ⊢
    simp [Property.forget, lexeme, same]
  | lastShort key closing tail ih =>
    obtain rfl : other = _ := like
    obtain ⟨kind, lexeme, one⟩ := beside.step ended (by simp [key])
    obtain ⟨kind', -, -⟩ := one.step ended (by simp [closing])
    obtain ⟨rest, v, read, two, same⟩ := ih one rfl stays
    refine ⟨_, v, .lastShort (kind.trans key) (kind'.trans closing) read, two, ?_⟩
    simp only [Shape.forget] at same ⊢
    simp [Property.forget, lexeme, same]
  | valued key colon value comma tail ih ihTail =>
    obtain rfl : other = _ := like
    obtain ⟨kind, lexeme, one⟩ := beside.step ended (by simp [key])
    obtain ⟨kind', -, two⟩ := one.step ended (by simp [colon])
    obtain ⟨found, v, read, three, same⟩ := ih two rfl trivial
    obtain ⟨kind'', -, four⟩ := three.step ended (by simp [comma])
    obtain ⟨rest, w, readRest, five, sameRest⟩ := ihTail four rfl stays
    refine ⟨_, w, .valued (kind.trans key) (kind'.trans colon) read (kind''.trans comma) readRest,
      five, ?_⟩
    simp only [Shape.forget] at same sameRest ⊢
    simp [Property.forget, lexeme, same, sameRest]
  | lastValued key colon value closing tail ih ihTail =>
    obtain rfl : other = _ := like
    obtain ⟨kind, lexeme, one⟩ := beside.step ended (by simp [key])
    obtain ⟨kind', -, two⟩ := one.step ended (by simp [colon])
    obtain ⟨found, v, read, three, same⟩ := ih two rfl trivial
    obtain ⟨kind'', -, -⟩ := three.step ended (by simp [closing])
    obtain ⟨rest, w, readRest, four, sameRest⟩ := ihTail three rfl stays
    refine ⟨_, w, .lastValued (kind.trans key) (kind'.trans colon) read (kind''.trans closing)
      readRest, four, ?_⟩
    simp only [Shape.forget] at same sameRest ⊢
    simp [Property.forget, lexeme, same, sameRest]

end Grammar
end Tide
