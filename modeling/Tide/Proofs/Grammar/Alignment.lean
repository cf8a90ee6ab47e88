import Mathlib.Data.List.Forall2
import Tide.Proofs.Grammar.Seen

/-!
# Parsing in step

Two runs of the grammar are compared, each on a stream of its own. An alignment says which streams
correspond, and which positions and which trees do. It has to be kept by every move that the parser
makes: by taking a token that is no end, and by joining two tokens. Whatever is put together from
corresponding pieces then corresponds, and if one run is at fault, so is the other.

The runs may have bounds of their own on depth and on rounds. How much of a bound is used up is
measured by the tokens in front of the first end, which is as far as a parser can get. A bound that
covers them is never reached, so the comparison leaves no room for a run that gave up.
-/
namespace Tide

namespace Stream

/-- How many tokens stand in front of the first end. -/
def reach (s : Stream) : Nat := (s.rest.takeWhile (·.kind ≠ .eof)).length

theorem reach_tail {s : Stream} (inside : s.head.kind ≠ .eof) : s.tail.reach + 1 = s.reach := by
  obtain ⟨rest, behind⟩ := s
  cases rest with
  | nil => exact absurd rfl inside
  | cons token rest =>
    have first : token.kind ≠ .eof := inside
    simp [reach, tail, first]

theorem eof_of_reach {s : Stream} (nothing : s.reach = 0) : s.head.kind = .eof := by
  by_contra inside
  have taken := reach_tail inside
  omega

theorem reach_of_eof {s : Stream} (atEnd : s.head.kind = .eof) : s.reach = 0 := by
  obtain ⟨rest, behind⟩ := s
  cases rest with
  | nil => rfl
  | cons token rest =>
    have first : token.kind = .eof := atEnd
    simp [reach, first]

theorem reach_le_length (s : Stream) : s.reach ≤ s.rest.length :=
  (List.takeWhile_prefix _).length_le

section

variable {first second : Token} {rest : List Token} {behind : Position}

theorem fuse_of_none (wanted : List Fused) (none : Kind.fuse first.kind second.kind = none) :
    fuse wanted ⟨first :: second :: rest, behind⟩ = ⟨first :: second :: rest, behind⟩ := by
  simp [fuse, none]

theorem fuse_of_some (wanted : List Fused) {operator : Fused}
    (spelled : Kind.fuse first.kind second.kind = some operator) :
    fuse wanted ⟨first :: second :: rest, behind⟩ =
      if first.span.stop.offset = second.span.start.offset ∧ operator ∈ wanted then
        ⟨⟨.fused operator, first.lexeme ++ second.lexeme, first.span.join second.span⟩ :: rest,
          behind⟩
      else ⟨first :: second :: rest, behind⟩ := by
  simp only [fuse, spelled]
  split <;> simp_all

end

/-- The two tokens of a long operator are no ends, and neither is the operator. -/
theorem reach_fuse_le (wanted : List Fused) (s : Stream) : (s.fuse wanted).reach ≤ s.reach := by
  obtain same | ⟨first, second, rest, operator, tokens, left, right, same⟩ := s.fuse_cases wanted
  · rw [same]
  · simp [same, reach, tokens, left, right]

/-- A separator is skipped, and so are those behind it. -/
theorem skip_eq (s : Stream) :
    s.skip = if s.head.kind = .symbol .semicolon then s.tail.skip else s := by
  obtain ⟨rest, behind⟩ := s
  cases rest with
  | nil => rfl
  | cons token rest => simp [skip, skipWhile, head, tail]

theorem reach_skip_le (s : Stream) : s.skip.reach ≤ s.reach :=
  (takes_skip s).lowers reach (fun _ => reach_tail) reach_fuse_le

end Stream

/-! ### Trees that correspond -/

/-- When positions and trees correspond. -/
structure TreeRelation where
  position : Position → Position → Prop
  node : Node → Node → Prop

namespace TreeRelation

variable (r : TreeRelation)

def span (a b : Span) : Prop := r.position a.start b.start ∧ r.position a.stop b.stop

def nodes : List Node → List Node → Prop := List.Forall₂ r.node

/-- The same token, in places that correspond. -/
structure Token (a b : Tide.Token) : Prop where
  kind : a.kind = b.kind
  lexeme : a.lexeme = b.lexeme
  span : r.span a.span b.span

theorem Token.describe {a b : Tide.Token} (same : r.Token a b) : a.describe = b.describe := by
  simp [Tide.Token.describe, same.kind, same.lexeme]

structure Branch (a b : Tide.Branch) : Prop where
  span : r.span a.span b.span
  condition : r.node a.condition b.condition
  body : r.nodes a.body b.body

structure Property (a b : Tide.Property) : Prop where
  span : r.span a.span b.span
  key : a.key = b.key
  value : r.node a.value b.value

/-- What follows the first branch of a choice. -/
structure Alternatives (a b : List Tide.Branch × Option (List Node)) : Prop where
  branches : List.Forall₂ r.Branch a.1 b.1
  otherwise : Option.Rel r.nodes a.2 b.2

end TreeRelation

/-- Trees made in the same way of corresponding parts correspond. -/
structure TreeRelation.Congruent (r : TreeRelation) : Prop where
  join {a b c d : Span} (left : r.span a b) (right : r.span c d) : r.span (a.join c) (b.join d)
  placed {a b : Node} (alike : r.node a b) : r.span a.span b.span
  missing : r.node .missing .missing
  program {p q : Span} {body body' : List Node} (place : r.span p q)
    (statements : r.nodes body body') : r.node (.program p body) (.program q body')
  declare {p q : Span} {name : Bytes} {constant : Bool} {value value' : Node}
    (place : r.span p q) (initial : r.node value value') :
    r.node (.declare p name constant value) (.declare q name constant value')
  function {p q : Span} {name : Bytes} {params : List Bytes} {body body' : List Node}
    (place : r.span p q) (statements : r.nodes body body') :
    r.node (.function p name params body) (.function q name params body')
  lambda {p q : Span} {params : List Bytes} {value value' : Node} (place : r.span p q)
    (result : r.node value value') : r.node (.lambda p params value) (.lambda q params value')
  choice {p q : Span} {branches branches' : List Tide.Branch}
    {otherwise otherwise' : Option (List Node)} (place : r.span p q)
    (conditions : List.Forall₂ r.Branch branches branches')
    (last : Option.Rel r.nodes otherwise otherwise') :
    r.node (.choice p branches otherwise) (.choice q branches' otherwise')
  ret {p q : Span} {value value' : Node} (place : r.span p q) (result : r.node value value') :
    r.node (.ret p value) (.ret q value')
  del {p q : Span} {name : Bytes} (place : r.span p q) : r.node (.del p name) (.del q name)
  raise {p q : Span} {message : Bytes} (place : r.span p q) :
    r.node (.raise p message) (.raise q message)
  assign {p q : Span} {target target' value value' : Node} (place : r.span p q)
    (left : r.node target target') (right : r.node value value') :
    r.node (.assign p target value) (.assign q target' value')
  member {p q : Span} {object object' key key' : Node} {computed : Bool} (place : r.span p q)
    (inside : r.node object object') (access : r.node key key') :
    r.node (.member p object key computed) (.member q object' key' computed)
  call {p q : Span} {callee callee' : Node} {arguments arguments' : List Node}
    (place : r.span p q) (head : r.node callee callee') (inputs : r.nodes arguments arguments') :
    r.node (.call p callee arguments) (.call q callee' arguments')
  operation {p q : Span} {family : Family} {operator : Kind} {left left' right right' : Node}
    (place : r.span p q) (first : r.node left left') (second : r.node right right') :
    r.node (.operation p family operator left right) (.operation q family operator left' right')
  name {p q : Span} {name : Bytes} (place : r.span p q) : r.node (.name p name) (.name q name)
  number {p q : Span} {value : Float} {width : Int} (place : r.span p q) :
    r.node (.number p value width) (.number q value width)
  text {p q : Span} {value : Bytes} {length : Int} (place : r.span p q) :
    r.node (.text p value length) (.text q value length)
  array {p q : Span} {elements elements' : List Node} (place : r.span p q)
    (inside : r.nodes elements elements') : r.node (.array p elements) (.array q elements')
  object {p q : Span} {entries entries' : List Tide.Property} (place : r.span p q)
    (inside : List.Forall₂ r.Property entries entries') :
    r.node (.object p entries) (.object q entries')

/-- Streams that correspond, and go on to do so when the parser moves. -/
structure Alignment extends TreeRelation where
  congruent : toTreeRelation.Congruent
  stream : Stream → Stream → Prop
  head {s u : Stream} (aligned : stream s u) : toTreeRelation.Token s.head u.head
  behind {s u : Stream} (aligned : stream s u) : position s.behind u.behind
  tail {s u : Stream} (aligned : stream s u) (inside : s.head.kind ≠ .eof) :
    stream s.tail u.tail
  fuse {s u : Stream} (aligned : stream s u) (wanted : List Fused) :
    stream (s.fuse wanted) (u.fuse wanted)

namespace Alignment

variable {α β : Type} (l : Alignment) {s u : Stream}

/-- Taking a token that is no end. -/
theorem step (aligned : l.stream s u) (inside : s.head.kind ≠ .eof) :
    l.stream s.tail u.tail ∧ s.tail.reach + 1 = s.reach :=
  ⟨l.tail aligned inside, Stream.reach_tail inside⟩

/-- Streams that correspond end after as many tokens. -/
theorem reach_eq (aligned : l.stream s u) : s.reach = u.reach := by
  induction size : s.reach generalizing s u with
  | zero =>
    have atEnd : u.head.kind = .eof := (l.head aligned).kind ▸ Stream.eof_of_reach size
    exact (Stream.reach_of_eof atEnd).symm
  | succ n ih =>
    have inside : s.head.kind ≠ .eof := fun atEnd => by simp [Stream.reach_of_eof atEnd] at size
    obtain ⟨behind, taken⟩ := l.step aligned inside
    have same := ih behind (by omega)
    have taken' := Stream.reach_tail ((l.head aligned).kind ▸ inside)
    omega

theorem skip (aligned : l.stream s u) : l.stream s.skip u.skip := by
  -- On the tokens in front of the first end, of which every separator takes one.
  induction size : s.reach generalizing s u with
  | zero =>
    have atEnd : s.head.kind = .eof := Stream.eof_of_reach size
    have same := (l.head aligned).kind
    rw [s.skip_eq, u.skip_eq, ← same, atEnd]
    exact aligned
  | succ n ih =>
    have same := (l.head aligned).kind
    rw [s.skip_eq, u.skip_eq, ← same]
    split
    next separator =>
      obtain ⟨behind, taken⟩ := l.step aligned (by simp [separator])
      exact ih behind (by omega)
    next => exact aligned

/-! ### Two runs -/

/-- Both runs succeed with what comes after, or both report the same fault in places that
correspond. Neither runs into its bound. -/
def Together (p q : Parser α) (s u : Stream) (after : α → α → Stream → Stream → Prop) : Prop :=
  match p s, q u with
  | .ok (a, t), .ok (b, v) => after a b t v
  | .error ⟨.fault cause span, _⟩, .error ⟨.fault cause' span', _⟩ =>
    cause.diagnostic .zero = cause'.diagnostic .zero ∧ l.span span span'
  | _, _ => False

/-- What is known behind a success: the results correspond, the streams do, and some tokens of
the first have been left behind. -/
structure After (like : α → α → Prop) (least : Nat) (s : Stream) (a b : α) (t v : Stream) :
    Prop where
  like : like a b
  aligned : l.stream t v
  less : t.reach + least ≤ s.reach

/-- Two parsers that run in step wherever fewer tokens are left than the bound. -/
def InStep (like : α → α → Prop) (least bound : Nat) (p q : Parser α) : Prop :=
  ∀ ⦃s u : Stream⦄, l.stream s u → s.reach < bound → l.Together p q s u (l.After like least s)

variable {l}

theorem Together.mono {p q : Parser α} {before after : α → α → Stream → Stream → Prop}
    (together : l.Together p q s u before) (imp : ∀ a b t v, before a b t v → after a b t v) :
    l.Together p q s u after := by
  unfold Together at *
  split at together
  next a t b v left right => exact imp a b t v together
  next => exact together
  next => exact together

theorem Together.bind {p q : Parser α} {f g : α → Parser β}
    {middle : α → α → Stream → Stream → Prop} {after : β → β → Stream → Stream → Prop}
    (first : l.Together p q s u middle)
    (next : ∀ a b t v, middle a b t v → l.Together (f a) (g b) t v after) :
    l.Together (p >>= f) (q >>= g) s u after := by
  unfold Together at first ⊢
  rw [Parser.bind_eq, Parser.bind_eq]
  split at first
  next a t b v found found' =>
    rw [found, found']
    exact next a b t v first
  next found found' =>
    rw [found, found']
    exact first
  next => exact first.elim

/-! ### Single steps

A step that always succeeds is passed by looking at what it gives on either side. -/

section

variable {after : α → α → Stream → Stream → Prop}

theorem together_pure {a b : α} (done : after a b s u) :
    l.Together (pure a) (pure b) s u after := done

theorem together_fail {cause cause' : SyntaxFault} {span span' : Span}
    (same : cause.diagnostic .zero = cause'.diagnostic .zero) (place : l.span span span') :
    l.Together (Parser.fail cause span) (Parser.fail cause' span') s u after := ⟨same, place⟩

@[simp]
theorem together_peek {f g : Token → Parser α} :
    l.Together (Parser.peek >>= f) (Parser.peek >>= g) s u after ↔
      l.Together (f s.head) (g u.head) s u after := Iff.rfl

@[simp]
theorem together_peekSecond {f g : Token → Parser α} :
    l.Together (Parser.peekSecond >>= f) (Parser.peekSecond >>= g) s u after ↔
      l.Together (f s.tail.head) (g u.tail.head) s u after := Iff.rfl

@[simp]
theorem together_peekKind {f g : Kind → Parser α} :
    l.Together (Parser.peekKind >>= f) (Parser.peekKind >>= g) s u after ↔
      l.Together (f s.head.kind) (g u.head.kind) s u after := Iff.rfl

@[simp]
theorem together_advance {f g : Token → Parser α} :
    l.Together (Parser.advance >>= f) (Parser.advance >>= g) s u after ↔
      l.Together (f s.head) (g u.head) s.tail u.tail after := Iff.rfl

@[simp]
theorem together_at {kind : Kind} {f g : Bool → Parser α} :
    l.Together (Parser.at_ kind >>= f) (Parser.at_ kind >>= g) s u after ↔
      l.Together (f (s.head.kind = kind)) (g (u.head.kind = kind)) s u after := Iff.rfl

@[simp]
theorem together_atSymbol {symbol : Symbol} {f g : Bool → Parser α} :
    l.Together (Parser.atSymbol symbol >>= f) (Parser.atSymbol symbol >>= g) s u after ↔
      l.Together (f (s.head.kind = .symbol symbol)) (g (u.head.kind = .symbol symbol)) s u after :=
  Iff.rfl

@[simp]
theorem together_fuse {wanted : List Fused} {f g : Unit → Parser α} :
    l.Together (Parser.fuse wanted >>= f) (Parser.fuse wanted >>= g) s u after ↔
      l.Together (f ()) (g ()) (s.fuse wanted) (u.fuse wanted) after := Iff.rfl

@[simp]
theorem together_skipSeparators {f g : Unit → Parser α} :
    l.Together (Parser.skipSeparators >>= f) (Parser.skipSeparators >>= g) s u after ↔
      l.Together (f ()) (g ()) s.skip u.skip after := Iff.rfl

@[simp]
theorem together_spanFrom {start start' : Position} {f g : Span → Parser α} :
    l.Together (Parser.spanFrom start >>= f) (Parser.spanFrom start' >>= g) s u after ↔
      l.Together (f ⟨start, s.behind⟩) (g ⟨start', u.behind⟩) s u after := Iff.rfl

/-- A wanted token is taken on both sides or missed on both. -/
theorem Together.expect {kind : Kind} {f g : Token → Parser α} (noEnd : kind ≠ .eof)
    (aligned : l.stream s u)
    (next : l.stream s.tail u.tail → s.tail.reach + 1 = s.reach →
      l.Together (f s.head) (g u.head) s.tail u.tail after) :
    l.Together (Parser.expect kind >>= f) (Parser.expect kind >>= g) s u after := by
  have head := l.head aligned
  -- Heads that are aligned have one kind, so both are wanted or neither is.
  by_cases found : s.head.kind = kind
  · have left : Parser.expect kind s = .ok (s.head, s.tail) := by simp [found]
    have right : Parser.expect kind u = .ok (u.head, u.tail) := by simp [← head.kind, found]
    have first : l.Together (Parser.expect kind) (Parser.expect kind) s u
        fun a b t v => a = s.head ∧ b = u.head ∧ t = s.tail ∧ v = u.tail := by
      unfold Together
      rw [left, right]
      exact ⟨rfl, rfl, rfl, rfl⟩
    obtain ⟨behind, taken⟩ := l.step aligned (found ▸ noEnd)
    apply first.bind
    rintro _ _ _ _ ⟨rfl, rfl, rfl, rfl⟩
    exact next behind taken
  · have other : u.head.kind ≠ kind := head.kind ▸ found
    have left : Parser.expect kind s = .error ⟨.fault (.expected kind s.head) s.head.span, s⟩ := by
      simp [Parser.expect, found]
    have right : Parser.expect kind u = .error ⟨.fault (.expected kind u.head) u.head.span, u⟩ := by
      simp [Parser.expect, other]
    have first : l.Together (Parser.expect kind) (Parser.expect kind) s u
        fun _ _ _ _ => False := by
      unfold Together
      rw [left, right]
      exact ⟨by simp [SyntaxFault.diagnostic, SyntaxFault.code, SyntaxFault.text,
        SyntaxFault.hint, head.describe], head.span⟩
    exact first.bind fun _ _ _ _ impossible => impossible.elim

theorem Together.expectSymbol {symbol : Symbol} {f g : Token → Parser α} (aligned : l.stream s u)
    (next : l.stream s.tail u.tail → s.tail.reach + 1 = s.reach →
      l.Together (f s.head) (g u.head) s.tail u.tail after) :
    l.Together (Parser.expectSymbol symbol >>= f) (Parser.expectSymbol symbol >>= g) s u after :=
  .expect (by simp) aligned next

end

/-! ### Loops -/

/-- No stream has fewer tokens left than none. -/
theorem inStep_zero {like : α → α → Prop} {least : Nat} {p q : Parser α} :
    l.InStep like least 0 p q := fun _ _ _ near => absurd near (Nat.not_lt_zero _)

theorem InStep.anti {like : α → α → Prop} {least bound lower : Nat} {p q : Parser α}
    (inStep : l.InStep like least bound p q) (le : lower ≤ bound) :
    l.InStep like least lower p q :=
  fun _ _ aligned near => inStep aligned (Nat.lt_of_lt_of_le near le)

namespace InStep

variable {like : α → α → Prop} {p q : Parser α} {bound rounds rounds' : Nat}

-- Each loop leaves tokens behind in every round, so the induction is on the bound for what is left.
/-- An item is only read where the loop goes on. -/
theorem statements (stop : Kind → Bool)
    (item : ∀ ⦃s u⦄, l.stream s u → stop s.head.kind = false → s.reach < bound →
      l.Together p q s u (l.After like 1 s)) (enough : bound ≤ rounds) (enough' : bound ≤ rounds') :
    l.InStep (List.Forall₂ like) 0 bound (Parser.statements stop p rounds)
      (Parser.statements stop q rounds') := by
  induction bound generalizing rounds rounds' with
  | zero => exact inStep_zero
  | succ bound ih =>
    obtain ⟨rounds, rfl⟩ := Nat.exists_eq_add_of_le' enough
    obtain ⟨rounds', rfl⟩ := Nat.exists_eq_add_of_le' enough'
    intro s u aligned near
    have skipped := l.skip aligned
    have fewer := s.reach_skip_le
    rw [← Nat.add_assoc, ← Nat.add_assoc]
    simp only [Parser.statements, together_skipSeparators, together_peekKind,
      ← (l.head skipped).kind]
    split
    next => exact together_pure ⟨.nil, skipped, fewer⟩
    next going =>
      apply (item skipped (by simpa using going) (by omega)).bind
      rintro first first' t v ⟨alike, aligned, less⟩
      have shorter := ih (fun _ _ aligned going near => item aligned going (by omega))
        (Nat.le_add_left _ rounds) (Nat.le_add_left _ rounds')
      apply (shorter aligned (by omega)).bind
      rintro rest rest' t v ⟨others, aligned, less'⟩
      exact together_pure ⟨.cons alike others, aligned, by omega⟩

theorem commaSeparated (item : l.InStep like 1 bound p q) (enough : bound ≤ rounds)
    (enough' : bound ≤ rounds') :
    l.InStep (List.Forall₂ like) 1 bound (Parser.commaSeparated p rounds)
      (Parser.commaSeparated q rounds') := by
  induction bound generalizing rounds rounds' with
  | zero => exact inStep_zero
  | succ bound ih =>
    obtain ⟨rounds, rfl⟩ := Nat.exists_eq_add_of_le' enough
    obtain ⟨rounds', rfl⟩ := Nat.exists_eq_add_of_le' enough'
    intro s u aligned near
    rw [← Nat.add_assoc, ← Nat.add_assoc]
    simp only [Parser.commaSeparated]
    apply (item aligned near).bind
    rintro first first' t v ⟨alike, aligned, less⟩
    simp only [together_atSymbol, ← (l.head aligned).kind]
    split
    next comma =>
      obtain ⟨behind, taken⟩ := l.step aligned (by simp [of_decide_eq_true comma])
      rw [together_advance]
      apply (ih (item.anti (by omega)) (by omega) (by omega) behind (by omega)).bind
      rintro rest rest' t v ⟨others, aligned, less'⟩
      exact together_pure ⟨.cons alike others, aligned, by omega⟩
    next => exact together_pure ⟨.cons alike .nil, aligned, less⟩

theorem listUpTo (closing : Symbol) (item : l.InStep like 1 bound p q) (enough : bound ≤ rounds)
    (enough' : bound ≤ rounds') :
    l.InStep (List.Forall₂ like) 1 bound (Parser.listUpTo closing p rounds)
      (Parser.listUpTo closing q rounds') := by
  intro s u aligned near
  simp only [Parser.listUpTo, together_atSymbol, ← (l.head aligned).kind]
  split
  next closed =>
    obtain ⟨behind, taken⟩ := l.step aligned (by simp [of_decide_eq_true closed])
    rw [together_advance]
    exact together_pure ⟨.nil, behind, by omega⟩
  next =>
    apply (item.commaSeparated enough enough' aligned near).bind
    rintro items items' t v ⟨alike, aligned, less⟩
    apply Together.expectSymbol aligned
    intro behind taken
    exact together_pure ⟨alike, behind, by omega⟩

variable (isOperator : Kind → Bool) (combine : Kind → α → α → α)

theorem leftChain (operand : l.InStep like 1 bound p q) (noEnd : isOperator .eof = false)
    (combined : ∀ {kind a a' b b'}, like a a' → like b b' →
      like (combine kind a b) (combine kind a' b'))
    (enough : bound ≤ rounds) (enough' : bound ≤ rounds')
    {left left' : α} (alike : like left left') :
    l.InStep like 0 bound (Parser.leftChain isOperator p combine left rounds)
      (Parser.leftChain isOperator q combine left' rounds') := by
  induction bound generalizing rounds rounds' left left' with
  | zero => exact inStep_zero
  | succ bound ih =>
    obtain ⟨rounds, rfl⟩ := Nat.exists_eq_add_of_le' enough
    obtain ⟨rounds', rfl⟩ := Nat.exists_eq_add_of_le' enough'
    intro s u aligned near
    rw [← Nat.add_assoc, ← Nat.add_assoc]
    simp only [Parser.leftChain, together_peekKind, ← (l.head aligned).kind]
    split
    next sign =>
      obtain ⟨behind, taken⟩ := l.step aligned fun atEnd => by simp [atEnd, noEnd] at sign
      rw [together_advance, ← (l.head aligned).kind]
      apply (operand behind (by omega)).bind
      rintro right right' t v ⟨alike', aligned, less⟩
      apply (ih (operand.anti (by omega)) (by omega) (by omega) (combined alike alike') aligned
        (by omega)).mono
      rintro whole whole' t v ⟨alike, aligned, less'⟩
      exact ⟨alike, aligned, by omega⟩
    next => exact together_pure ⟨alike, aligned, Nat.le_refl _⟩

theorem rightChain {prepare : Parser Unit} (operand : l.InStep like 1 bound p q)
    (noEnd : isOperator .eof = false)
    (combined : ∀ {kind a a' b b'}, like a a' → like b b' →
      like (combine kind a b) (combine kind a' b'))
    (prepared : l.InStep (fun _ _ => True) 0 bound prepare prepare) (enough : bound ≤ rounds)
    (enough' : bound ≤ rounds') :
    l.InStep like 1 bound (Parser.rightChain prepare isOperator p combine rounds)
      (Parser.rightChain prepare isOperator q combine rounds') := by
  induction bound generalizing rounds rounds' with
  | zero => exact inStep_zero
  | succ bound ih =>
    obtain ⟨rounds, rfl⟩ := Nat.exists_eq_add_of_le' enough
    obtain ⟨rounds', rfl⟩ := Nat.exists_eq_add_of_le' enough'
    intro s u aligned near
    rw [← Nat.add_assoc, ← Nat.add_assoc]
    simp only [Parser.rightChain]
    apply (operand aligned near).bind
    rintro left left' t v ⟨alike, aligned, less⟩
    apply (prepared aligned (by omega)).bind
    rintro _ _ t v ⟨-, aligned, less'⟩
    simp only [together_peekKind, ← (l.head aligned).kind]
    split
    next sign =>
      obtain ⟨behind, taken⟩ := l.step aligned fun atEnd => by simp [atEnd, noEnd] at sign
      rw [together_advance, ← (l.head aligned).kind]
      apply (ih (operand.anti (by omega)) (prepared.anti (by omega)) (by omega) (by omega) behind
        (by omega)).bind
      rintro right right' t v ⟨alike', aligned, less''⟩
      exact together_pure ⟨combined alike alike', aligned, by omega⟩
    next => exact together_pure ⟨alike, aligned, by omega⟩

end InStep

theorem inStep_nothing (bound : Nat) : l.InStep (fun _ _ => True) 0 bound (pure ()) (pure ()) :=
  fun _ _ aligned _ => together_pure ⟨trivial, aligned, Nat.le_refl _⟩

theorem inStep_fuse (wanted : List Fused) (bound : Nat) :
    l.InStep (fun _ _ => True) 0 bound (Parser.fuse wanted) (Parser.fuse wanted) :=
  fun s _ aligned _ => ⟨trivial, l.fuse aligned wanted, s.reach_fuse_le wanted⟩

end Alignment
end Tide
