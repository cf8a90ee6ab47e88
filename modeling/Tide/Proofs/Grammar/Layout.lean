import Tide.Proofs.Grammar.Lockstep
import Tide.Proofs.Tree.Forget

/-!
# Layout

How much space stands between two tokens makes no difference to what they mean, except where they
could be joined to one long operator. Two lists of the same tokens with the same joints are parsed
to the same tree, up to places, or refused for the same reason.

Positions decide nothing but whether two tokens touch. A joined token spans both, but it is never
joined again, so its new place is not looked at.
-/
namespace Tide

namespace Token

/-- Nothing stands between the two tokens. -/
def touches (first second : Token) : Bool :=
  first.span.stop.offset = second.span.start.offset

/-- For every two neighbours that spell a long operator, whether they touch. -/
def joints : List Token → List (Option Bool)
  | first :: second :: rest =>
    (Kind.fuse first.kind second.kind).map (fun _ => first.touches second) ::
      joints (second :: rest)
  | _ => []

end Token

/-- The same tokens in other places, touching alike wherever two of them could be joined. -/
structure Respaced (tokens others : List Token) : Prop where
  words : tokens.map (fun t => (t.kind, t.lexeme)) = others.map fun t => (t.kind, t.lexeme)
  joints : Token.joints tokens = Token.joints others

namespace Respaced

variable {t t' : Token} {tokens others : List Token}

theorem head (respaced : Respaced (t :: tokens) (t' :: others)) :
    t.kind = t'.kind ∧ t.lexeme = t'.lexeme := by
  have words := respaced.words
  simp only [List.map_cons, List.cons.injEq, Prod.mk.injEq] at words
  exact words.1

theorem length_eq (respaced : Respaced tokens others) : tokens.length = others.length := by
  simpa using congrArg List.length respaced.words

theorem tail (respaced : Respaced (t :: tokens) (t' :: others)) : Respaced tokens others where
  words := by
    have words := respaced.words
    simp only [List.map_cons, List.cons.injEq] at words
    exact words.2
  joints := by
    have joints := respaced.joints
    have same := respaced.length_eq
    match tokens, others with
    | [], [] => rfl
    | _ :: _, _ :: _ =>
      simp only [Token.joints, List.cons.injEq] at joints
      exact joints.2
    | [], _ :: _ => simp at same
    | _ :: _, [] => simp at same

/-- A token that is no part of a long operator may come in front. -/
theorem cons (respaced : Respaced tokens others)
    (same : t.kind = t'.kind ∧ t.lexeme = t'.lexeme)
    (never : ∀ kind, Kind.fuse t.kind kind = none) : Respaced (t :: tokens) (t' :: others) where
  words := by simp [same, respaced.words]
  joints := by
    have never' : ∀ kind, Kind.fuse t'.kind kind = none := same.1 ▸ never
    have sizes := respaced.length_eq
    match tokens, others with
    | [], [] => rfl
    | _ :: _, _ :: _ => simp only [Token.joints, never, never', respaced.joints, Option.map_none]
    | [], _ :: _ => simp at sizes
    | _ :: _, [] => simp at sizes

end Respaced

/-! ### Trees without their places -/

/-- Nothing is asked of places, and trees are the same without theirs. -/
def TreeRelation.unplaced : TreeRelation where
  position _ _ := True
  node a b := a.unplaced = b.unplaced

namespace TreeRelation

theorem unplaced_nodes {a b : List Node} (same : unplaced.nodes a b) :
    a.map (Node.forget id) = b.map (Node.forget id) := by
  induction same with
  | nil => rfl
  | @cons first first' _ _ alike _ ih =>
    have same : first.forget id = first'.forget id := alike
    rw [List.map_cons, List.map_cons, ih, same]

theorem unplaced_branches {a b : List Tide.Branch} (same : List.Forall₂ unplaced.Branch a b) :
    a.map (Branch.forget id) = b.map (Branch.forget id) := by
  induction same with
  | nil => rfl
  | @cons first first' _ _ alike _ ih =>
    obtain ⟨span, condition, body⟩ := first
    obtain ⟨span', condition', body'⟩ := first'
    have same : condition.forget id = condition'.forget id := alike.condition
    have inside : body.map (Node.forget id) = body'.map (Node.forget id) :=
      unplaced_nodes alike.body
    simp [Branch.forget, same, inside, ih]

theorem unplaced_properties {a b : List Tide.Property}
    (same : List.Forall₂ unplaced.Property a b) :
    a.map (Property.forget id) = b.map (Property.forget id) := by
  induction same with
  | nil => rfl
  | @cons first first' _ _ alike _ ih =>
    obtain ⟨span, key, value⟩ := first
    obtain ⟨span', key', value'⟩ := first'
    have same : value.forget id = value'.forget id := alike.value
    have keys : key = key' := alike.key
    simp [Property.forget, same, keys, ih]

theorem unplaced_otherwise {a b : Option (List Node)} (same : Option.Rel unplaced.nodes a b) :
    a.map (List.map (Node.forget id)) = b.map (List.map (Node.forget id)) := by
  cases same with
  | none => rfl
  | some alike => simp [unplaced_nodes alike]

theorem unplaced_congruent : unplaced.Congruent where
  join _ _ := ⟨trivial, trivial⟩
  placed _ := ⟨trivial, trivial⟩
  missing := rfl
  program _ statements := by simp [unplaced, Node.forget, unplaced_nodes statements]
  declare _ initial := by simpa [unplaced, Node.forget] using initial
  function _ statements := by simp [unplaced, Node.forget, unplaced_nodes statements]
  lambda _ result := by simpa [unplaced, Node.forget] using result
  choice _ conditions last := by
    simp [unplaced, Node.forget, unplaced_branches conditions, unplaced_otherwise last]
  ret _ result := by simpa [unplaced, Node.forget] using result
  del _ := rfl
  raise _ := rfl
  assign _ left right := by simpa [unplaced, Node.forget] using ⟨left, right⟩
  member _ inside access := by simpa [unplaced, Node.forget] using ⟨inside, access⟩
  call _ head inputs := by simpa [unplaced, Node.forget, unplaced_nodes inputs] using head
  operation _ first second := by simpa [unplaced, Node.forget] using ⟨first, second⟩
  name _ := rfl
  number _ := rfl
  text _ := rfl
  array _ inside := by simp [unplaced, Node.forget, unplaced_nodes inside]
  object _ inside := by simp [unplaced, Node.forget, unplaced_properties inside]

end TreeRelation

/-! ### The parser keeps the tokens respaced -/

namespace Respaced

variable {s u : Stream}

theorem stream_head (respaced : Respaced s.rest u.rest) :
    TreeRelation.unplaced.Token s.head u.head := by
  obtain ⟨rest, behind⟩ := s
  obtain ⟨rest', behind'⟩ := u
  have same := respaced.length_eq
  match rest, rest' with
  | [], [] => exact ⟨rfl, rfl, trivial, trivial⟩
  | _ :: _, _ :: _ => exact ⟨respaced.head.1, respaced.head.2, trivial, trivial⟩
  | [], _ :: _ => simp at same
  | _ :: _, [] => simp at same

theorem stream_tail (respaced : Respaced s.rest u.rest) : Respaced s.tail.rest u.tail.rest := by
  obtain ⟨rest, behind⟩ := s
  obtain ⟨rest', behind'⟩ := u
  have same := respaced.length_eq
  match rest, rest' with
  | [], [] => exact respaced
  | _ :: _, _ :: _ => exact respaced.tail
  | [], _ :: _ => simp at same
  | _ :: _, [] => simp at same

/-- Both runs join their next two tokens, or neither does. -/
theorem stream_fuse (respaced : Respaced s.rest u.rest) (wanted : List Fused) :
    Respaced (s.fuse wanted).rest (u.fuse wanted).rest := by
  obtain ⟨rest, behind⟩ := s
  obtain ⟨rest', behind'⟩ := u
  have same := respaced.length_eq
  match rest, rest' with
  | [], [] => exact respaced
  | [_], [_] => exact respaced
  | first :: second :: rest, first' :: second' :: rest' =>
    obtain ⟨kind, lexeme⟩ := respaced.head
    obtain ⟨kind', lexeme'⟩ := respaced.tail.head
    have joints := respaced.joints
    simp only [Token.joints, Token.touches, ← kind, ← kind', List.cons.injEq] at joints
    cases spelled : Kind.fuse first.kind second.kind with
    | none =>
      have spelled' : Kind.fuse first'.kind second'.kind = none := kind ▸ kind' ▸ spelled
      rw [Stream.fuse_of_none wanted spelled, Stream.fuse_of_none wanted spelled']
      exact respaced
    | some operator =>
      have spelled' : Kind.fuse first'.kind second'.kind = some operator := kind ▸ kind' ▸ spelled
      have touch : first.span.stop.offset = second.span.start.offset ↔
          first'.span.stop.offset = second'.span.start.offset := by
        simpa [spelled] using joints.1
      rw [Stream.fuse_of_some wanted spelled, Stream.fuse_of_some wanted spelled']
      simp only [touch]
      -- A joined token is no part of a longer operator, so it needs no joint with what follows.
      split
      next => exact respaced.tail.tail.cons ⟨rfl, by rw [lexeme, lexeme']⟩ fun _ => rfl
      next => exact respaced
  | [], _ :: _ => simp at same
  | _ :: _, [] => simp at same
  | [_], _ :: _ :: _ => simp at same
  | _ :: _ :: _, [_] => simp at same

end Respaced

/-- Two runs over the same tokens in other places. -/
def Alignment.respaced : Alignment where
  toTreeRelation := .unplaced
  congruent := TreeRelation.unplaced_congruent
  stream s u := Respaced s.rest u.rest
  head := Respaced.stream_head
  behind _ := trivial
  tail aligned _ := aligned.stream_tail
  fuse aligned wanted := aligned.stream_fuse wanted

/-- The same tokens in other places spell the same program, or are refused for the same reason. All
that matters of their layout is whether two tokens touch that could be joined. -/
theorem parse_respaced {tokens others : List Token} (respaced : Respaced tokens others) :
    match Program.parse tokens, Program.parse others with
    | .ok program, .ok program' => program.unplaced = program'.unplaced
    | .error fault, .error fault' =>
      fault.code = fault'.code ∧ fault.text = fault'.text ∧ fault.hint = fault'.hint
    | _, _ => False := by
  have aligned : Alignment.respaced.stream (.ofTokens tokens) (.ofTokens others) := respaced
  have together := Program.parse_together aligned
  generalize Program.parse tokens = first at together ⊢
  generalize Program.parse others = second at together ⊢
  match first, second with
  | .ok program, .ok program' => exact together
  | .error fault, .error fault' =>
    have same := together.1
    simp only [Diagnostic.mk.injEq] at same
    exact ⟨same.1, same.2.2.1, same.2.2.2.2⟩
  | .ok _, .error _ | .error _, .ok _ => exact together.elim

/-- A comparison, set close and set wide, and a fault that is met twice as well. -/
theorem parse_respaced_comparison :
    (∃ program program', Program.parse (scan (utf8 "(a)<=f(b)")).tokens = .ok program ∧
      Program.parse (scan (utf8 "( a ) <= f /* of */\n(b)")).tokens = .ok program' ∧
      program.unplaced = program'.unplaced) ∧
    ∃ fault fault', Program.parse (scan (utf8 "! x;")).tokens = .error fault ∧
      Program.parse (scan (utf8 "!x ;")).tokens = .error fault' ∧
      fault.code = fault'.code ∧ fault.text = fault'.text ∧ fault.hint = fault'.hint := by
  obtain ⟨comparison, constant, parses, fails⟩ :
      Respaced (scan (utf8 "(a)<=f(b)")).tokens
        (scan (utf8 "( a ) <= f /* of */\n(b)")).tokens ∧
      Respaced (scan (utf8 "! x;")).tokens (scan (utf8 "!x ;")).tokens ∧
      (Program.parse (scan (utf8 "(a)<=f(b)")).tokens).isOk = true ∧
      (Program.parse (scan (utf8 "! x;")).tokens).isOk = false :=
    ⟨⟨by cbv, by cbv⟩, ⟨by cbv, by cbv⟩, by cbv, by cbv⟩
  have same := parse_respaced comparison
  have same' := parse_respaced constant
  constructor
  · split at same
    next program program' found found' => exact ⟨program, program', found, found', same⟩
    next found _ => simp [found, Except.isOk, Except.toBool] at parses
    next => exact same.elim
  · split at same'
    next found _ => simp [found, Except.isOk, Except.toBool] at fails
    next fault fault' found found' => exact ⟨fault, fault', found, found', same'⟩
    next => exact same'.elim

end Tide
