import Mathlib
import Tide.Proofs.Eval.Sources
import Tide.Proofs.Grammar.Recovery
import Tide.Proofs.Tree.Written

/-!
# Formatting and reading back

The text of a program scans to its words, and its words are read back as the program. Both halves
are inductions over the trees that programs have; the program that comes back differs at most in its
spans and in the widths of its numbers, because numbers are written in one way only.
-/
namespace Tide

namespace Grammar

open Format

/-! ### Statements -/

/-- An expression that is no choice does not look like another kind of statement. -/
theorem Grammatical.begins_plain {node : Node} (tree : Grammatical .scanned .expression node)
    (noBlock : isBlock node = false) :
    Begins (fun kind => !opensStatement kind && !kind.isPair) node.words := by
  have operand : ∀ kind, startsOperand kind = true →
      (!opensStatement kind && !kind.isPair) = true := by
    intro kind start
    unfold startsOperand at start
    split at start <;> first | rfl | contradiction
  have atom := tree.begins.2
  -- An operation begins as its left operand does, which is in parentheses if it is no atom. A
  -- choice is excluded, and the others begin with a token of their own.
  cases tree with
  | choiceTerm whole =>
    cases whole
    simp [isBlock] at noBlock
  | assign left =>
    rw [Node.words]
    exact ((begins_operand left.begins.2).append _).mono operand
  | operation belongs first =>
    rw [Node.words]
    exact ((begins_operand first.begins.2).append _).mono operand
  | lambda | del | raise | array | object => exact ⟨_, _, by rw [Node.words], rfl⟩
  | property | index | call | name | number | text => exact (atom rfl).mono operand

theorem recovers_expressionStatement {node : Node} (tree : Grammatical .scanned .expression node)
    (recovers : RecoversExpression node) (returning : Bool) :
    RecoversStatement returning node := by
  intro place more allowed ends s here
  cases blocked : isBlock node with
  | true =>
    obtain ⟨again, t, read, same, behind⟩ :=
      recovers.block blocked place more (by simp) ends.noElse s here
    exact ⟨again, t, .choiceStatement read, same, .inl behind⟩
  | false =>
    have plain := (tree.begins_plain blocked).head (by simp) here
    simp only [Bool.and_eq_true, Bool.not_eq_true'] at plain
    obtain ⟨rest, rfl⟩ := ends.separated blocked
    obtain ⟨again, t, read, same, behind⟩ := recovers.whole place.inner _ rest rfl s here
    exact ⟨again, t, .expressionStatement plain.1 read, same, .inl behind⟩

theorem recovers_bare {span : Span} {name : Bytes} (returning : Bool) :
    RecoversStatement returning (.declare span name false .missing) := by
  intro place more allowed ends s here
  obtain ⟨rest, rfl⟩ := ends.separated rfl
  simp only [Node.words, Node.isMissing, if_true, List.cons_append, List.nil_append] at here
  obtain ⟨marker, here⟩ := here.mark
  obtain ⟨kind, lexeme, here⟩ := here.ident
  obtain ⟨separator, behind⟩ := here.mark
  refine ⟨_, _, .bare marker kind separator, ?_, .inr ⟨rest, rfl, behind⟩⟩
  simp [Node.forget, lexeme]

theorem recovers_declare {span : Span} {name : Bytes} {constant : Bool} {value : Node}
    (present : value.isMissing = false) (recovers : RecoversStatement false value)
    (returning : Bool) : RecoversStatement returning (.declare span name constant value) := by
  intro place more allowed ends s here
  simp only [Node.words, present, Bool.false_eq_true, if_false, List.cons_append] at here
  obtain ⟨marker, here⟩ := here.mark
  obtain ⟨kind, lexeme, here⟩ := here.ident
  obtain ⟨sign, here⟩ := here.mark
  have valueEnds : Ends value more := ⟨fun _ => ends.separated rfl, ends.noElse⟩
  obtain ⟨again, t, read, same, near⟩ := recovers place.inner more (by simp) valueEnds _ here
  refine ⟨_, t, .declare constant marker kind sign read, ?_, near⟩
  simp [Node.forget, lexeme, same]

theorem recovers_function {span : Span} {name : Bytes} {params : List Bytes} {body : List Node}
    (recovers : RecoversBody true body) (returning : Bool) :
    RecoversStatement returning (.function span name params body) := by
  intro place more allowed ends s here
  simp only [Node.words, List.cons_append, List.append_assoc] at here
  obtain ⟨keyword, here⟩ := here.key
  obtain ⟨kind, lexeme, here⟩ := here.ident
  obtain ⟨names, t, readNames, sameNames, behind⟩ := recovers_params params _ _ here
  obtain ⟨again, u, read, same, after⟩ :=
    recovers.body (show true = true → returns .functionBody = true from fun _ => rfl) more _ behind
  refine ⟨_, u, .function keyword kind readNames read, ?_, .inl after⟩
  simp_all [SameNodes, Node.forget]

theorem recovers_ret {span : Span} {value : Node} (recovers : RecoversExpression value) :
    RecoversStatement true (.ret span value) := by
  intro place more allowed ends s here
  obtain rfl : place = .functionBody := by
    have inBody := allowed rfl
    cases place <;> simp [returns] at inBody ⊢
  obtain ⟨rest, rfl⟩ := ends.separated rfl
  rw [Node.words, List.cons_append] at here
  obtain ⟨keyword, here⟩ := here.key
  obtain ⟨again, t, read, same, behind⟩ := recovers.whole .nested _ rest rfl _ here
  refine ⟨_, t, .retStatement (.ret keyword read), ?_, .inl behind⟩
  simp_all [SameNode, Node.forget]

/-! ### Every tree of a source comes back from its words -/

def Role.Recovered : Role → Node → Prop
  | .statement returning, node => RecoversStatement returning node
  | .choice returning, node => RecoversChoice returning node
  | .expression, node => RecoversExpression node

theorem Grammatical.begins_choice {returning : Bool} {node : Node}
    (tree : Grammatical .scanned (.choice returning) node) :
    isAtomic node = false ∧ Begins (· = .keyword .if_) node.words := by
  cases tree with
  | choice filled =>
    obtain ⟨⟨span, condition, body⟩, rest, rfl⟩ := List.exists_cons_of_ne_nil filled
    rw [Node.words, branchWords, Word.intercalate_cons, List.cons_append]
    exact ⟨rfl, _, _, List.cons_append, rfl⟩

theorem Grammatical.recovered {role : Role} {node : Node} (tree : Grammatical .scanned role node)
    (legible : node.Legible) : role.Recovered node := by
  -- The tree gives the cases and legibility goes down to the parts with it. The words that may
  -- follow a tree are part of what `Recovered` says, so a part is recovered in front of the rest of
  -- its tree.
  induction tree with
  | bare named => exact recovers_bare _
  | declare named initial ih =>
    exact recovers_declare initial.isMissing_eq (ih (Node.legible_declare.mp legible)) _
  | function named parameters statements ih =>
    have body := Node.legible_function.mp legible
    exact recovers_function ⟨fun node member => ih node member (body node member),
      fun node member => (statements node member).begins.1⟩ _
  | ret result ih => exact recovers_ret (ih (Node.legible_ret.mp legible))
  | ofChoice whole ih =>
    intro place more allowed ends s here
    obtain ⟨again, t, read, same, behind⟩ := ih legible place more allowed ends.noElse s here
    exact ⟨again, t, .choiceStatement read, same, .inl behind⟩
  | ofExpression whole ih => exact recovers_expressionStatement whole (ih legible) _
  | choice filled conditions bodies last ihConditions ihBodies ihLast =>
    obtain ⟨branchesLegible, lastLegible⟩ := Node.legible_choice.mp legible
    refine recovers_choice filled (fun branch member => ?_) ?_
    · obtain ⟨condition, body⟩ := branchesLegible branch member
      exact ⟨ihConditions branch member condition, (conditions branch member).begins.1,
        fun node inside => ihBodies branch member node inside (body node inside),
        fun node inside => (bodies branch member node inside).begins.1⟩
    · exact ⟨fun node member => ihLast node member (lastLegible node member),
        fun node member => (last node member).begins.1⟩
  | choiceTerm whole ih =>
    have recovers := ih legible
    obtain ⟨notAtomic, begins⟩ := whole.begins_choice
    refine .of_term notAtomic (fun _ => recovers) ⟨.if_, begins⟩ ?_
    intro place w more closed s here
    -- What closes a term is never an `else`, so the choice does not take up more branches.
    have noElse : NoElse (w :: more) := by
      intro v first
      obtain rfl : w = v := by simpa using first
      intro kind
      simp [kind, closes] at closed
    obtain ⟨again, t, read, same, behind⟩ := recovers place (w :: more) (by simp) noElse s here
    exact ⟨again, t, .choiceTerm read, same, behind⟩
  | lambda parameters body ih => exact .lambda (ih (Node.legible_lambda.mp legible))
  | del => exact .del
  | raise => exact .raise
  | assign left right ihLeft ihRight =>
    obtain ⟨first, second⟩ := Node.legible_assign.mp legible
    exact .assign (ihLeft first) (ihRight second) left.begins.2 right.begins.1
  | @property span object keySpan key inside named ih =>
    obtain ⟨noNumber, objectLegible, -⟩ := Node.legible_member.mp legible
    have tree : Grammatical .scanned .expression (.member span object (.name keySpan key) false) :=
      .property inside named
    refine .of_operand rfl (tree.begins.2 rfl) fun place => ?_
    rw [Node.words, Node.words]
    exact (ih objectLegible).property (noNumber rfl) place
  | @index span object key inside computed ih ihKey =>
    obtain ⟨-, objectLegible, keyLegible⟩ := Node.legible_member.mp legible
    have tree : Grammatical .scanned .expression (.member span object key true) :=
      .index inside computed
    refine .of_operand rfl (tree.begins.2 rfl) fun place => ?_
    rw [Node.words]
    exact (ih objectLegible).index (ihKey keyLegible) place
  | @call span callee arguments head inputs ih ihInputs =>
    obtain ⟨calleeLegible, inputsLegible⟩ := Node.legible_call.mp legible
    have tree : Grammatical .scanned .expression (.call span callee arguments) :=
      .call head inputs
    refine .of_operand rfl (tree.begins.2 rfl) fun place => ?_
    rw [Node.words, nodeWords_eq]
    exact (ih calleeLegible).call
      (fun node member => ihInputs node member (inputsLegible node member))
      (fun node member => (inputs node member).begins.1) place
  | operation belongs first second ihFirst ihSecond =>
    obtain ⟨left, right⟩ := Node.legible_operation.mp legible
    exact .operation belongs (ihFirst left) (ihSecond right) first.begins.2 second.begins.2
  | @name span name named =>
    have tree : Grammatical .scanned .expression (.name span name) := .name named
    refine .of_operand rfl (tree.begins.2 rfl) fun place => ?_
    rw [Node.words]
    exact .name
  | @number span value width finite =>
    have tree : Grammatical .scanned .expression (.number span value width) := .number finite
    refine .of_operand rfl (tree.begins.2 rfl) fun place => ?_
    rw [Node.words]
    exact .number finite
  | @text span value =>
    have tree : Grammatical .scanned .expression (.text span value (Utf8.count value)) := .text
    refine .of_operand rfl (tree.begins.2 rfl) fun place => ?_
    rw [Node.words]
    exact .text
  | array inside ih =>
    have elements := Node.legible_array.mp legible
    exact .array (fun node member => ih node member (elements node member))
      fun node member => (inside node member).begins.1
  | object keys values ih =>
    have entries := Node.legible_object.mp legible
    exact .object fun entry member present => ih entry member present (entries entry member)

/-- Tokens that spell the lines of a program are parsed to the program. -/
theorem parse_of_spells {span : Span} {statements : List Node}
    (trees : ∀ statement ∈ statements, Grammatical .scanned (.statement false) statement)
    (legible : (Node.program span statements).Legible) {tokens : List Token}
    (spelled : Spells tokens (lineWords statements ++ [.last])) :
    ∃ again, Program.parse tokens = .ok again ∧
      again.content = (Node.program span statements).content := by
  have each : ∀ statement ∈ statements, RecoversStatement false statement := by
    intro statement member
    exact (trees statement member).recovered (Node.legible_program.mp legible statement member)
  have begins : ∀ statement ∈ statements, Begins startsStatement statement.words :=
    fun statement member => (trees statement member).begins.1
  have here : (Stream.ofTokens tokens).At (lineWords statements ++ [.last]) := spelled
  -- No line begins with a separator, so nothing is skipped in front of the first one.
  have skipped : (Stream.ofTokens tokens).skip.At (lineWords statements ++ [.last]) := by
    obtain ⟨w, rest, front, start⟩ :=
      begins_lines begins (show stops true Word.last.kind = true from rfl) []
    have next := startsLine_spec start
    rw [front] at here ⊢
    rw [here.skip_eq_self next.1 next.2.1]
    exact here
  have allowed : false = true → returns .outside = true := by simp
  obtain ⟨again, t, read, same, -⟩ := recovers_lines each begins allowed false rfl [] skipped
  refine ⟨_, parse_ok_iff.mpr ⟨again, t, read, rfl⟩, ?_⟩
  rw [SameNodes] at same
  simp [Node.forget, same]

end Grammar

open Grammar

/-- The text of a legible program scans without a complaint, and its tokens are the program. -/
theorem parse_scan_format {source : Bytes} {program : Node}
    (parsed : (read source).program = .ok program) (legible : program.Legible) :
    ∃ tokens again, scan program.format = ⟨tokens, [], none⟩ ∧ Program.parse tokens = .ok again ∧
      again.content = program.content := by
  obtain ⟨-, parsed⟩ := read_ok_iff.mp parsed
  obtain ⟨span, statements, rfl, trees⟩ := grammatical_of_scan parsed
  obtain ⟨tokens, scanned, spelled⟩ := @cuts_program span statements trees .first
  obtain ⟨again, parsedAgain, same⟩ := parse_of_spells trees legible spelled
  exact ⟨tokens, again, scanned, parsedAgain, same⟩

/-- A program in which no number has a member is the same after it has been written and read back,
up to the places of its nodes and the widths of its numbers. -/
theorem read_format {source : Bytes} {program : Node}
    (parsed : (read source).program = .ok program) (legible : program.Legible) :
    (scan program.format).fault = none ∧ (scan program.format).warnings = [] ∧
      ∃ again, (read program.format).program = .ok again ∧ again.content = program.content := by
  obtain ⟨tokens, again, scanned, parsedAgain, same⟩ := parse_scan_format parsed legible
  refine ⟨by rw [scanned], by rw [scanned], again, read_ok_iff.mpr ?_, same⟩
  rw [scanned]
  exact ⟨rfl, parsedAgain⟩

/-- The program `(a=b).c==d`. -/
def assignedMember : Node :=
  .program ⟨⟨0, 1, 1⟩, ⟨10, 1, 11⟩⟩ [.operation ⟨⟨1, 1, 2⟩, ⟨10, 1, 11⟩⟩ .comparison (.fused .eq)
    (.member ⟨⟨1, 1, 2⟩, ⟨7, 1, 8⟩⟩
      (.assign ⟨⟨1, 1, 2⟩, ⟨4, 1, 5⟩⟩ (.name ⟨⟨1, 1, 2⟩, ⟨2, 1, 3⟩⟩ (utf8 "a"))
        (.name ⟨⟨3, 1, 4⟩, ⟨4, 1, 5⟩⟩ (utf8 "b")))
      (.name ⟨⟨6, 1, 7⟩, ⟨7, 1, 8⟩⟩ (utf8 "c")) false)
    (.name ⟨⟨9, 1, 10⟩, ⟨10, 1, 11⟩⟩ (utf8 "d"))]

theorem read_format_assignedMember :
    (read (utf8 "(a=b).c==d")).program = .ok assignedMember ∧ assignedMember.Legible ∧
      (scan assignedMember.format).fault = none ∧ (scan assignedMember.format).warnings = [] ∧
      ∃ again, (read assignedMember.format).program = .ok again ∧
        again.content = assignedMember.content := by
  have parsed : (read (utf8 "(a=b).c==d")).program = .ok assignedMember := by cbv
  have legible : assignedMember.Legible := by
    simp [assignedMember, Node.Legible, Node.pointed, Node.isNumber]
  exact ⟨parsed, legible, read_format parsed legible⟩

example : assignedMember.format = utf8 "(a = b).c == d;\n" := by cbv

end Tide
