import Tide.Proofs.Grammar.Completeness
import Tide.Proofs.Grammar.Ordered
import Tide.Proofs.Grammar.Stops
import Tide.Proofs.Grammar.Transport
import Tide.Proofs.Tree.Spans

/-!
# Trees nest as their source does

Whatever is read from tokens that stand in order lies between the end of the token taken last and
the end of the last token of its own, and what a tree is made of was read one behind the other. So
in a program that parses, parts lie within the parts that hold them, in the order of the source.

A node may be wider than its own tokens: it ends where the stream stands when it is made, behind
parentheses that were dropped, and this is still in front of all that is read later.
-/
namespace Tide

namespace Grammar

/-! ### Combined parts -/

/-- A part that begins with the first of two parts and ends with the second. -/
theorem nests_pair {left right node : Node} {start middle stop : Int}
    (first : Nests start (.node left) middle) (second : Nests middle (.node right) stop)
    (starts : node.span.start.offset = left.span.start.offset)
    (stops : node.span.stop.offset = right.span.stop.offset)
    (children : (Part.node node).children = [.node left, .node right]) :
    Nests start (.node node) stop := by
  have one := first.bounds
  have two := second.bounds
  have inside : NestsAll left.span.start.offset [.node left, .node right] right.span.stop.offset :=
    .cons first.from_start (.single (.mk two.1 two.2.1 second.inside le_rfl))
  rw [← starts, ← stops, ← children] at inside
  exact .mk (starts ▸ one.1) inside.le inside (stops ▸ two.2.2)

/-- The join of the spans of two parts that follow each other is such a span. -/
theorem nests_join {left right node : Node} {start middle stop : Int}
    (first : Nests start (.node left) middle) (second : Nests middle (.node right) stop)
    (span : node.span = left.span.join right.span)
    (children : (Part.node node).children = [.node left, .node right]) :
    Nests start (.node node) stop := by
  have one := first.bounds
  have two := second.bounds
  simp only [Part.span] at one two
  refine nests_pair first second ?_ ?_ children
  · rw [span, Span.offset_start_join]
    omega
  · rw [span, Span.offset_stop_join]
    omega

/-- Two parts that are combined make one that begins with the first and ends with the second. -/
theorem nests_combine (level : Level) {operator : Kind} {left right : Node}
    {start middle stop : Int} (first : Nests start (.node left) middle)
    (second : Nests middle (.node right) stop) :
    Nests start (.node (level.combine operator left right)) stop := by
  cases level with
  | assignment => exact nests_pair first second rfl rfl rfl
  | _ => exact nests_join first second rfl rfl

/-- A key, a colon and a value make a property from the key to where the value ends. -/
theorem nests_property {length : Int} {s t : Stream} {value : Node} (ordered : s.Ordered length)
    (key : s.head.kind = .ident) (colon : s.tail.head.kind = .symbol .colon)
    (follow : Nests s.tail.tail.behind.offset (.node value) t.behind.offset) :
    Nests s.behind.offset
      (.property (.mk ⟨s.head.span.start, t.behind⟩ s.head.lexeme value)) t.behind.offset := by
  have one := ordered.take (by simp [key])
  have two := ordered.tail.take (by simp [colon])
  have inside : NestsAll s.head.span.start.offset (Part.present value) t.behind.offset :=
    .present (follow.mono (by omega) le_rfl)
  exact .mk one.1 inside.le inside le_rfl

/-! ### What each goal gives -/

/-- Where the result of a goal lies. Operators and accesses extend what lies in front of them, and a
branch begins in front of what is read of it. -/
def Goal.Nests {shape : Shape} (goal : Goal shape) (s : Stream) (result : shape.Result)
    (t : Stream) : Prop :=
  match shape, goal, result with
  | _, .statement _, node | _, .choice _, node | _, .ret _, node | _, .chain .., node
  | _, .simple _, node | _, .accessed _, node | _, .term _, node =>
    Tide.Nests s.behind.offset (.node node) t.behind.offset
  | _, .statements .., nodes | _, .body _, nodes | _, .items _, nodes | _, .list .., nodes =>
    NestsAll s.behind.offset (nodes.map .node) t.behind.offset
  | _, .branch _ start, found =>
    start.offset ≤ s.behind.offset → Tide.Nests start.offset (.branch found) t.behind.offset
  | _, .alternatives _, (branches, otherwise) =>
    NestsAll s.behind.offset (branches.map .branch ++ (otherwise.getD []).map .node)
      t.behind.offset
  | _, .more _ _ left, node | _, .accesses _ left, node =>
    ∀ start, Tide.Nests start (.node left) s.behind.offset →
      Tide.Nests start (.node node) t.behind.offset
  | _, .names, _ | _, .params, _ => s.behind.offset ≤ t.behind.offset
  | _, .properties _, entries =>
    NestsAll s.behind.offset (entries.map .property) t.behind.offset

theorem Level.nests_operand {level : Level} {place : Place} {s t : Stream} {node : Node}
    (given : (level.operand place).Nests s node t) :
    Tide.Nests s.behind.offset (.node node) t.behind.offset := by
  cases level <;> exact given

theorem Reads.nests {shape : Shape} {goal : Goal shape} {s t : Stream} {result : shape.Result}
    {length : Int} (read : Reads goal s result t) (ordered : s.Ordered length) :
    goal.Nests s result t := by
  -- The tokens of a rule stand in order, and each part was read between two of them. So every case
  -- bounds the offsets by the tokens it takes, and puts the parts into the gaps.
  induction read with
  | @bare place s marker name separator =>
    have one := ordered.take (by simp [marker])
    have two := ordered.tail.take (by simp [name])
    have three := ordered.tail.tail.take (by simp [separator])
    have whole : s.head.span.start.offset ≤ s.tail.tail.tail.behind.offset := by omega
    exact .mk one.1 whole (.nil whole) le_rfl
  | @declare place s value t constant marker name sign initial ih =>
    have one := ordered.take (by simp [marker])
    have two := ordered.tail.take (by simp [name])
    have three := ordered.tail.tail.take (by simp [sign])
    have inside : NestsAll s.head.span.start.offset (Part.present value) t.behind.offset :=
      .present ((ih ordered.tail.tail.tail).mono (by omega) le_rfl)
    exact .mk one.1 inside.le inside le_rfl
  | @function place s names statements t u keyword name parameters inside ihParameters ihInside =>
    have one := ordered.take (by simp [keyword])
    have two := ordered.tail.take (by simp [name])
    have three : s.tail.tail.behind.offset ≤ t.behind.offset := ihParameters ordered.tail.tail
    have inside : NestsAll s.head.span.start.offset (statements.map .node) u.behind.offset :=
      (ihInside (parameters.ordered ordered.tail.tail)).mono (by omega) le_rfl
    exact .mk one.1 inside.le inside le_rfl
  | choiceStatement whole ih => exact ih ordered
  | retStatement whole ih => exact ih ordered
  | expressionStatement plain whole ih => exact ih ordered
  | noStatements stop => exact .nil ordered.skip.2
  | statements going head tail ihHead ihTail =>
    have first := (ihHead ordered.skip.1).mono ordered.skip.2 le_rfl
    exact .cons first (ihTail (head.ordered ordered.skip.1))
  | body opening inside closing ih =>
    have one := ordered.take (by simp [opening])
    have last := (inside.ordered ordered.tail).take (by simp [closing])
    exact (ih ordered.tail).mono (by omega) (by omega)
  | @branch place start s condition t statements u opening filled inside closing follow ihInside
      ihFollow =>
    intro front
    have one := ordered.take (by simp [opening])
    have two := (inside.ordered ordered.tail).take (by simp [closing])
    have parts : NestsAll start.offset (.node condition :: statements.map .node) u.behind.offset :=
      .cons ((ihInside ordered.tail).mono (by omega) (by omega))
        (ihFollow (inside.ordered ordered.tail).tail)
    exact .mk le_rfl parts.le parts le_rfl
  | noAlternative end_ => exact .nil le_rfl
  | otherwise keyword last follow ih =>
    have one := ordered.take (by simp [keyword])
    exact (ih ordered.tail).mono (by omega) le_rfl
  | @elseIf place s first t rest u keyword again head tail ihHead ihTail =>
    have one := ordered.take (by simp [keyword])
    have two := ordered.tail.take (by simp [again])
    have head' := ihHead ordered.tail.tail (by omega)
    exact .cons (head'.mono (by omega) le_rfl) (ihTail (head.ordered ordered.tail.tail))
  | @choice place s first t rest u keyword head tail ihHead ihTail =>
    have one := ordered.take (by simp [keyword])
    have parts : NestsAll s.head.span.start.offset
        ((first :: rest.1).map .branch ++ (rest.2.getD []).map .node) u.behind.offset :=
      .cons (ihHead ordered.tail (by omega)) (ihTail (head.ordered ordered.tail))
    exact .mk one.1 parts.le parts le_rfl
  | @ret s value t keyword follow ih =>
    have one := ordered.take (by simp [keyword])
    have inside : NestsAll s.head.span.start.offset [.node value] t.behind.offset :=
      .single ((ih ordered.tail).mono (by omega) le_rfl)
    exact .mk one.1 inside.le inside le_rfl
  | @alone level place s operand t right first end_ ih =>
    -- Joining the next two tokens does not move the end of the one taken last.
    have same := ((first.ordered ordered).prepare level).2
    have given := Level.nests_operand (ih ordered)
    rw [← same] at given
    exact given
  | @right level place s left t operand u right first sign rest ihFirst ihRest =>
    obtain ⟨prepared, same⟩ := (first.ordered ordered).prepare level
    have given := Level.nests_operand (ihFirst ordered)
    have one := prepared.take (Level.ne_eof_of_isOperator _ sign)
    rw [← same] at given
    exact nests_combine level given ((ihRest prepared.tail).mono (by omega) le_rfl)
  | left left head rest ihHead ihRest =>
    exact ihRest (head.ordered ordered) _ (Level.nests_operand (ihHead ordered))
  | noMore end_ => exact fun start given => given
  | more sign next rest ihNext ihRest =>
    -- The left operand grows to the right, so what is known of it carries over.
    intro start given
    have one := ordered.take (Level.ne_eof_of_isOperator _ sign)
    have second := Level.nests_operand (ihNext ordered.tail)
    exact ihRest (next.ordered ordered.tail) start
      (nests_combine _ given (second.mono (by omega) le_rfl))
  | @object place s entries t opening inside closing ih =>
    have one := ordered.take (by simp [opening])
    have last := (inside.ordered ordered.tail).take (by simp [closing])
    have parts : NestsAll s.head.span.start.offset (entries.map .property) t.tail.behind.offset :=
      (ih ordered.tail).mono (by omega) (by omega)
    exact .mk one.1 parts.le parts le_rfl
  | @array place s elements t opening inside ih =>
    have one := ordered.take (by simp [opening])
    have parts : NestsAll s.head.span.start.offset (elements.map .node) t.behind.offset :=
      (ih ordered.tail).mono (by omega) le_rfl
    exact .mk one.1 parts.le parts le_rfl
  | simple noObject noArray whole ih => exact ih ordered
  | accessed head rest ihHead ihRest => exact ihRest (head.ordered ordered) _ (ihHead ordered)
  | noAccess noCall noProperty noIndex => exact fun start given => given
  | @call place s object arguments t node u opening inside rest ihInside ihRest =>
    intro start given
    have one := ordered.take (by simp [opening])
    have parts : NestsAll object.span.start.offset (.node object :: arguments.map .node)
        t.behind.offset :=
      .cons given.from_start ((ihInside ordered.tail).mono (by omega) le_rfl)
    exact ihRest (inside.ordered ordered.tail) start (.mk given.bounds.1 parts.le parts le_rfl)
  | @property place s object node t point key rest ih =>
    intro start given
    have one := ordered.take (by simp [point])
    have two := ordered.tail.take (by simp [key])
    have front : s.behind.offset ≤ s.tail.head.span.start.offset := by omega
    have name : Tide.Nests s.behind.offset (.node (.name s.tail.head.span s.tail.head.lexeme))
        s.tail.tail.behind.offset := .mk front two.2.1 (.nil two.2.1) two.2.2.le
    exact ih ordered.tail.tail start (nests_join given name rfl rfl)
  | @index place s object key t node u opening inside closing rest ihInside ihRest =>
    intro start given
    have one := ordered.take (by simp [opening])
    have last := (inside.ordered ordered.tail).take (by simp [closing])
    have parts : NestsAll object.span.start.offset [.node object, .node key]
        t.tail.behind.offset :=
      .cons given.from_start (.single ((ihInside ordered.tail).mono (by omega) (by omega)))
    exact ihRest (inside.ordered ordered.tail).tail start
      (.mk given.bounds.1 parts.le parts le_rfl)
  | name kind =>
    have one := ordered.take (by simp [kind])
    exact .mk one.1 one.2.1 (.nil one.2.1) one.2.2.le
  | number kind reading =>
    have one := ordered.take (ne_eof_of_isNumeric kind)
    exact .mk one.1 one.2.1 (.nil one.2.1) one.2.2.le
  | @signed place s value sign kind reading =>
    have one := ordered.take (by rcases sign with sign | sign <;> simp [sign])
    have two := ordered.tail.take (ne_eof_of_isNumeric kind)
    have starts := Span.offset_start_join s.head.span s.tail.head.span
    have stops := Span.offset_stop_join s.head.span s.tail.head.span
    have whole : (s.head.span.join s.tail.head.span).start.offset ≤
      (s.head.span.join s.tail.head.span).stop.offset := by omega
    exact .mk (by simp only [Part.span, Node.span]; omega) whole (.nil whole)
      (by simp only [Part.span, Node.span]; omega)
  | text kind =>
    have one := ordered.take (by simp [kind])
    exact .mk one.1 one.2.1 (.nil one.2.1) one.2.2.le
  | parenthesized opening inside closing ih =>
    -- The node keeps its own span, which lies between the parentheses.
    have one := ordered.take (by simp [opening])
    have last := (inside.ordered ordered.tail).take (by simp [closing])
    exact (ih ordered.tail).mono (by omega) (by omega)
  | @lambda place s names t value u keyword parameters arrow follow ihParameters ihFollow =>
    have one := ordered.take (by simp [keyword])
    have two : s.tail.behind.offset ≤ t.behind.offset := ihParameters ordered.tail
    obtain ⟨fused, same⟩ := (parameters.ordered ordered.tail).fuse [.fatArrow]
    have three := fused.take (by simp [arrow])
    rw [same] at three
    have inside : NestsAll s.head.span.start.offset [.node value] u.behind.offset :=
      .single ((ihFollow fused.tail).mono (by omega) le_rfl)
    exact .mk one.1 inside.le inside le_rfl
  | choiceTerm whole ih => exact ih ordered
  | retTerm whole ih => exact ih ordered
  | @del place s keyword name =>
    have one := ordered.take (by simp [keyword])
    have two := ordered.tail.take (by simp [name])
    have whole : s.head.span.start.offset ≤ s.tail.head.span.stop.offset := by omega
    exact .mk one.1 whole (.nil whole) two.2.2.le
  | @raise place s keyword message =>
    have one := ordered.take (by simp [keyword])
    have two := ordered.tail.take (by simp [message])
    have whole : s.head.span.start.offset ≤ s.tail.head.span.stop.offset := by omega
    exact .mk one.1 whole (.nil whole) two.2.2.le
  | item whole end_ ih => exact .single (ih ordered)
  | items head comma tail ihHead ihTail =>
    have one := (head.ordered ordered).take (by simp [comma])
    exact .cons ((ihHead ordered).mono le_rfl (by omega)) (ihTail (head.ordered ordered).tail)
  | empty at_ =>
    have one := ordered.take (by simp [at_])
    exact .nil (by omega)
  | list filled inside at_ ih =>
    have last := (inside.ordered ordered).take (by simp [at_])
    exact (ih ordered).mono le_rfl (by omega)
  | @lastName s kind end_ =>
    have one := ordered.take (by simp [kind])
    show s.behind.offset ≤ s.tail.behind.offset
    omega
  | @names s rest t kind comma tail ih =>
    have one := ordered.take (by simp [kind])
    have two := ordered.tail.take (by simp [comma])
    have later : s.tail.tail.behind.offset ≤ t.behind.offset := ih ordered.tail.tail
    show s.behind.offset ≤ t.behind.offset
    omega
  | @noParams s opening closing =>
    have one := ordered.take (by simp [opening])
    have two := ordered.tail.take (by simp [closing])
    show s.behind.offset ≤ s.tail.tail.behind.offset
    omega
  | @params s names t opening filled inside closing ih =>
    have one := ordered.take (by simp [opening])
    have later : s.tail.behind.offset ≤ t.behind.offset := ih ordered.tail
    have last := (inside.ordered ordered.tail).take (by simp [closing])
    show s.behind.offset ≤ t.tail.behind.offset
    omega
  | noProperties end_ => exact .nil le_rfl
  | @short place s rest t key comma tail ih =>
    have one := ordered.take (by simp [key])
    have two := ordered.tail.take (by simp [comma])
    have behind : s.head.span.stop.offset ≤ s.tail.tail.behind.offset := by omega
    exact .cons (.mk one.1 one.2.1 (.nil one.2.1) behind) (ih ordered.tail.tail)
  | @lastShort place s rest t key closing tail ih =>
    have one := ordered.take (by simp [key])
    exact .cons (.mk one.1 one.2.1 (.nil one.2.1) one.2.2.le) (ih ordered.tail)
  | @valued place s value t rest u key colon follow comma tail ihFollow ihTail =>
    have last := (follow.ordered ordered.tail.tail).take (by simp [comma])
    have first := nests_property ordered key colon (ihFollow ordered.tail.tail)
    exact .cons (first.mono le_rfl (by omega)) (ihTail (follow.ordered ordered.tail.tail).tail)
  | lastValued key colon follow closing tail ihFollow ihTail =>
    exact .cons (nests_property ordered key colon (ihFollow ordered.tail.tail))
      (ihTail (follow.ordered ordered.tail.tail))

/-- A program begins with its first token and ends with the source. -/
theorem nests_of_parse {length : Int} {tokens : List Token} {program : Node}
    (ordered : (Stream.ofTokens tokens).Ordered length) (ended : (Stream.ofTokens tokens).Ended)
    (parsed : Program.parse tokens = .ok program) : Tide.Nests 0 (.node program) length := by
  obtain ⟨statements, ⟨rest, behind⟩, read, rfl⟩ := parse_ok_iff.mp parsed
  have inside : NestsAll (Stream.ofTokens tokens).behind.offset (statements.map .node)
      behind.offset := read.nests ordered
  obtain ⟨-, kept⟩ := read.ordered ordered
  obtain ⟨more, last, same, -⟩ := read.ended ended
  -- The last token was not taken, so the end stands behind all statements.
  cases kept with
  | nil => simp at same
  | @cons _ last rest front proper later =>
    have parts := inside.mono le_rfl (front.trans proper)
    exact .mk ordered.nonneg parts.le parts later.le

/-! ### Where faults are reported -/

/-- Tokens in order, and the places in the source that they come from. -/
def inOrder (length : Int) : Watch where
  stream s := s.Ordered length
  place span := span.Fits length
  tail ordered _ := ordered.tail
  fuse ordered wanted := (ordered.fuse wanted).1
  head ordered := ordered.head_fits
  pair ordered _ := .join ordered.head_fits ordered.tail.head_fits
  constant ordered _ :=
    have name := ordered.head_le_behind.trans ordered.tail.le_tail
    ⟨ordered.head_fits.1, name, ordered.tail.tail.behind_fits⟩

/-- The diagnostic of tokens in order is at a place in the source. -/
theorem fits_of_parse {length : Int} {tokens : List Token} {diagnostic : Diagnostic}
    (ordered : (Stream.ofTokens tokens).Ordered length)
    (failed : Program.parse tokens = .error diagnostic) : diagnostic.span.Fits length := by
  have ends := program_keeps (w := inOrder length) (depthFor tokens) ordered
  unfold Parser.Ends at ends
  unfold Program.parse Program.parseWithin at failed
  split at ends
  next a t found => simp [found] at failed
  next cause span t found =>
    rw [found] at failed
    obtain rfl := Except.error.inj failed
    exact ends.1
  next t found =>
    rw [found] at failed
    obtain rfl := Except.error.inj failed
    exact ⟨le_rfl, le_rfl, ordered.nonneg.trans ordered.behind_fits⟩

end Grammar

/-- A source that scans parses to a program whose parts stand in it, each within the part that holds
it and behind what comes before it, or else the diagnostic is at a place in the source. -/
theorem spans_nest {source : Bytes} (scans : (scan source).fault = none) :
    match Program.parse (scan source).tokens with
    | .ok program => ∀ part, (Part.node program).Holds part → part.Placed source.length
    | .error diagnostic => diagnostic.span.Fits source.length := by
  obtain ⟨ordered, ended⟩ := ordered_of_scan scans
  cases parsed : Program.parse (scan source).tokens with
  | ok program =>
    have nests := Grammar.nests_of_parse ordered ended parsed
    exact fun part holds => (nests.of_holds holds).placed
  | error diagnostic => exact Grammar.fits_of_parse ordered parsed

/-- The program `(a) <= f(b)`. -/
def comparedCall : Node :=
  .program ⟨⟨0, 1, 1⟩, ⟨11, 1, 12⟩⟩ [.operation ⟨⟨1, 1, 2⟩, ⟨11, 1, 12⟩⟩ .comparison (.fused .lte)
    (.name ⟨⟨1, 1, 2⟩, ⟨2, 1, 3⟩⟩ (utf8 "a"))
    (.call ⟨⟨7, 1, 8⟩, ⟨11, 1, 12⟩⟩ (.name ⟨⟨7, 1, 8⟩, ⟨8, 1, 9⟩⟩ (utf8 "f"))
      [.name ⟨⟨9, 1, 10⟩, ⟨10, 1, 11⟩⟩ (utf8 "b")])]

theorem spans_nest_comparedCall :
    (Program.parse (scan (utf8 "(a) <= f(b)")).tokens = .ok comparedCall ∧
        ∀ part, (Part.node comparedCall).Holds part → part.Placed 11) ∧
      Program.parse (scan (utf8 "! x;")).tokens =
          .error ((SyntaxFault.uninitializedConstant (utf8 "x")).diagnostic
            ⟨⟨0, 1, 1⟩, ⟨3, 1, 4⟩⟩) ∧
        Span.Fits 4 ⟨⟨0, 1, 1⟩, ⟨3, 1, 4⟩⟩ := by
  obtain ⟨scans, parsed, scans', failed⟩ :
      (scan (utf8 "(a) <= f(b)")).fault = none ∧
        Program.parse (scan (utf8 "(a) <= f(b)")).tokens = .ok comparedCall ∧
        (scan (utf8 "! x;")).fault = none ∧
        Program.parse (scan (utf8 "! x;")).tokens =
          .error ((SyntaxFault.uninitializedConstant (utf8 "x")).diagnostic
            ⟨⟨0, 1, 1⟩, ⟨3, 1, 4⟩⟩) :=
    ⟨by cbv, by cbv, by cbv, by cbv⟩
  have nest := spans_nest scans
  have fits := spans_nest scans'
  rw [parsed] at nest
  rw [failed] at fits
  exact ⟨⟨parsed, nest⟩, failed, fits⟩

end Tide
