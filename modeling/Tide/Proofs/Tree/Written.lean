import Tide.Proofs.Grammar.Scanned

/-!
# The text of a tree is cut into its words

Every piece of the text of a tree that was read from a source scans to the words of that piece. The
induction follows the tree, and in each case the text is put together from the right. What has to be
watched are the places where two words touch without a blank between them: a name or a keyword must
be followed by something that is no part of a name, and a number by something that is not a point.
-/
namespace Tide

open Scan Grammar

/-! ### Lists of parts, in terms of their elements -/

namespace Format

def branch (depth : Nat) : Branch → Bytes
  | .mk _ condition statements =>
    utf8 "if \x7b" ++ node depth condition ++ utf8 "\x7d " ++
      body depth (lines (depth + 1) statements)

def property (depth : Nat) : Property → Bytes
  | .mk _ key value => key ++ if value.isMissing then [] else utf8 ": " ++ node depth value

@[simp] theorem nodes_eq (depth : Nat) (elements : List Node) :
    nodes depth elements = elements.map (node depth) := by
  induction elements with
  | nil => rfl
  | cons first rest ih => simp [nodes, ih]

@[simp] theorem lines_eq (depth : Nat) (statements : List Node) :
    lines depth statements = statements.map fun first => line depth first (node depth first) := by
  induction statements with
  | nil => rfl
  | cons first rest ih => simp [lines, ih]

@[simp] theorem conditions_eq (depth : Nat) (branches : List Branch) :
    conditions depth branches = branches.map (branch depth) := by
  induction branches with
  | nil => rfl
  | cons first rest ih =>
    obtain ⟨span, condition, statements⟩ := first
    simp [conditions, branch, ih]

@[simp] theorem properties_eq (depth : Nat) (entries : List Property) :
    properties depth entries = entries.map (property depth) := by
  induction entries with
  | nil => rfl
  | cons first rest ih =>
    obtain ⟨span, key, value⟩ := first
    simp [properties, property, ih]

end Format

/-! ### Pieces of text -/

/-- These bytes are these words in front of anything that is no part of a name, a point included. -/
def Firm (bytes : Bytes) (words : List Word) : Prop :=
  ∀ ⦃rest more⦄, Bounded rest → Cuts rest more → Cuts (bytes ++ rest) (words ++ more)

theorem Firm.writes {bytes : Bytes} {words : List Word} (firm : Firm bytes words) :
    Writes bytes words :=
  fun _ _ ended cut => firm ended.bounded cut

namespace Cuts

variable {rest : Bytes} {words : List Word}

theorem key (k : Keyword) (bounded : Bounded rest) (cut : Cuts rest words) :
    Cuts (utf8 k.name ++ rest) (.key k :: words) :=
  cut.lone (lone_key k) bounded (by simp [Word.fixed, Kind.isNumeric])

/-- A keyword and the blank behind it. -/
theorem spacedKey (k : Keyword) {text : Bytes} (same : text = utf8 k.name ++ utf8 " ")
    (cut : Cuts rest words) : Cuts (text ++ rest) (.key k :: words) := by
  have spaced : Cuts (utf8 " " ++ rest) words := cut.marks _ [] (by decide)
  have ended : Ended (utf8 " " ++ rest) := ended_append (by decide) rest
  rw [same, List.append_assoc]
  exact spaced.key k ended.bounded

theorem name {name : Bytes} (alone : Lone name (.ident name)) (bounded : Bounded rest)
    (cut : Cuts rest words) : Cuts (name ++ rest) (.ident name :: words) :=
  cut.lone alone bounded (by simp [Word.ident, Kind.isNumeric])

theorem text (value : Bytes) (bounded : Bounded rest) (cut : Cuts rest words) :
    Cuts (Literal.encode value ++ rest) (.text value :: words) :=
  cut.lone (lone_text value) bounded (by simp [Word.text, Kind.isNumeric])

/-- An operator between blanks. -/
theorem operator {family : Family} {operator : Kind}
    (belongs : isOperatorOf family operator = true) (cut : Cuts rest words) :
    Cuts (utf8 " " ++ (operator.render ++ (utf8 " " ++ rest))) (.fixed operator :: words) := by
  have spaced : Cuts (utf8 " " ++ rest) words := cut.marks _ [] (by decide)
  have ended : Ended (utf8 " " ++ rest) := ended_append (by decide) rest
  refine marks _ [] (by decide) ?_
  cases operator with
  | keyword k => exact spaced.key k ended.bounded
  | symbol s =>
    rw [render_symbol]
    refine spaced.mark s fun _ star => ?_
    have delimiter := ended.bounded _ star
    simp [delimits] at delimiter
  | fused operator => exact spaced.pair operator
  | _ => cases family <;> simp [isOperatorOf, isAdditive, isMultiplicative, isComparison,
      isLogical] at belongs

/-- A number, whose sign is a word of its own. -/
theorem number {sign run : Bytes} {b : UInt8} (signed : sign = [] ∨ sign = ['-'.toUInt8])
    (digit : isDigit b = true) (inRun : run.all isRun = true)
    (stop : ∀ c ∈ rest.head?, isRun c = false) (cut : Cuts rest words) :
    Cuts (sign ++ b :: run ++ rest) (Word.number (sign ++ b :: run) ++ words) := by
  have digits := cuts_digits digit inRun stop cut
  obtain rfl | rfl := signed
  · have noSign : b ≠ '-'.toUInt8 := Scan.ne_of_isRun (Scan.isRun_of_isDigit digit) (by decide)
    simpa [Word.number, noSign] using digits
  · have minus : Symbol.minus.byte = '-'.toUInt8 := rfl
    have signed := digits.mark .minus (by simp)
    simpa [Word.number, minus] using signed

end Cuts

theorem writes_number {x : Float} (finite : Number.Finite x) :
    Writes (Number.render x) (Word.number (Number.render x)) := by
  obtain ⟨sign, b, run, signed, digit, inRun, -, text, -⟩ := Number.render_spec finite
  intro rest more ended cut
  rw [text]
  exact cut.number signed digit inRun (not_isRun_of_ended ended)

/-- A number takes up the point behind it, whatever comes next. -/
theorem firm_pointed {x : Float} (finite : Number.Finite x) {key : Bytes}
    (alone : Lone key (.ident key)) :
    Firm (Number.render x ++ utf8 "." ++ key)
      (Word.number (Number.render x ++ utf8 ".") ++ [.ident key]) := by
  obtain ⟨sign, b, run, signed, digit, inRun, -, text, -⟩ := Number.render_spec finite
  intro rest more bounded cut
  have pointed : (run ++ utf8 ".").all isRun = true := by
    rw [List.all_append, inRun]
    decide
  have whole := (cut.name alone bounded).number signed digit pointed (not_isRun_of_name alone rest)
  rw [text]
  simpa using whole

/-! ### Parts of a tree -/

/-- The text of the node is cut into its words wherever it may stand. -/
structure Written (node : Node) : Prop where
  writes : ∀ depth, Writes (Format.node depth node) node.words
  firm : Format.isAtomic node = true → node.isNumber = false →
    ∀ depth, Firm (Format.node depth node) node.words

namespace Written

variable {node : Node}

theorem of_firm (firm : ∀ depth, Firm (Format.node depth node) node.words) : Written node :=
  ⟨fun depth => (firm depth).writes, fun _ _ => firm⟩

theorem of_writes (notAtomic : Format.isAtomic node = false)
    (writes : ∀ depth, Writes (Format.node depth node) node.words) : Written node :=
  ⟨writes, fun atomic _ => by simp [notAtomic] at atomic⟩

theorem parenthesized (written : Written node) (depth : Nat) :
    Firm (utf8 "(" ++ Format.node depth node ++ utf8 ")") (Word.body node.words) := by
  intro rest more bounded cut
  have closed : Cuts (utf8 ")" ++ rest) (.mark .rparen :: more) :=
    cut.marks _ [.mark .rparen] (by decide)
  have inside := written.writes depth (ended_append (by decide) rest) closed
  have whole := inside.marks (utf8 "(") [.mark .lparen] (by decide)
  simpa [Word.body] using whole

theorem operand (written : Written node) (depth : Nat) :
    Writes (Format.parenthesize node (Format.node depth node))
      (Word.parenthesize node node.words) := by
  unfold Format.parenthesize Word.parenthesize
  split
  · exact written.writes depth
  · exact (written.parenthesized depth).writes

/-- An object, the point and the name behind it. -/
theorem point (written : Written node)
    (number : ∀ span x width, node = .number span x width → Number.Finite x) {key : Bytes}
    (alone : Lone key (.ident key)) (depth : Nat) :
    Firm (Format.parenthesize node (Format.node depth node) ++ utf8 "." ++ key)
      (Word.point node node.words ++ [.ident key]) := by
  -- The point behind a number becomes a part of it, so nothing has to end the number.
  cases isNumber : node.isNumber with
  | true =>
    cases node <;> simp only [Node.isNumber, Bool.false_eq_true] at isNumber
    next span x width => exact firm_pointed (number span x width rfl) alone
  | false =>
    have object : Firm (Format.parenthesize node (Format.node depth node))
        (Word.parenthesize node node.words) := by
      unfold Format.parenthesize Word.parenthesize
      split
      next atomic => exact written.firm atomic isNumber depth
      next => exact written.parenthesized depth
    intro rest more bounded cut
    have dotted : Cuts (utf8 "." ++ (key ++ rest)) (.mark .dot :: .ident key :: more) :=
      (cut.name alone bounded).marks _ [.mark .dot] (by decide)
    have starts : Bounded (utf8 "." ++ (key ++ rest)) := by
      intro b first
      obtain rfl : '.'.toUInt8 = b := Option.some.inj first
      decide +kernel
    have whole := object starts dotted
    simpa [Word.point_of_noNumber isNumber] using whole

end Written

theorem writes_list {elements : List Bytes} {words : List (List Word)}
    (each : elements.Forall₂ Writes words) : Writes (Format.list elements) (Word.list words) :=
  Writes.join each (fun rest => ended_append (by decide) rest)
    fun cut => cut.marks _ [.mark .comma] (by decide)

theorem firm_params {names : List Bytes} (alone : ∀ name ∈ names, Lone name (.ident name)) :
    Firm (Format.params names) (Word.params names) := by
  intro rest more bounded cut
  have closed : Cuts (utf8 "|" ++ rest) (.mark .pipe :: more) :=
    cut.marks _ [.mark .pipe] (by decide)
  have each : names.Forall₂ Writes (names.map fun name => [.ident name]) := by
    rw [List.forall₂_map_right_iff, List.forall₂_same]
    exact fun name member => .lone (alone name member)
  have inside := writes_list each (ended_append (by decide) rest) closed
  have whole := inside.marks (utf8 "|") [.mark .pipe] (by decide)
  simpa [Format.params, Word.params, Format.list] using whole

theorem writes_line {node : Node} (written : Written node) (depth : Nat) :
    Writes (Format.line depth node (Format.node depth node)) (Word.line node node.words) := by
  intro rest more ended cut
  unfold Format.line Word.line
  split
  · have whole := (written.writes depth ended cut).blanks (2 * depth)
    simpa [Format.indent] using whole
  · have closed : Cuts (utf8 ";" ++ rest) (.mark .semicolon :: more) :=
      cut.marks _ [.mark .semicolon] (by decide)
    have inside := written.writes depth (ended_append (by decide) rest) closed
    have whole := inside.blanks (2 * depth)
    simpa [Format.indent] using whole

theorem intercalate_nil (parts : List (List Word)) : List.intercalate [] parts = parts.flatten := by
  induction parts with
  | nil => rfl
  | cons first rest ih =>
    cases rest with
    | nil => simp [List.intercalate]
    | cons second rest =>
      simp only [List.intercalate, List.intersperse_cons_cons, List.flatten_cons, List.nil_append]
        at ih ⊢
      rw [ih]

theorem firm_body {statements : List Node} (each : ∀ node ∈ statements, Written node)
    (depth : Nat) :
    Firm (Format.body depth (Format.lines (depth + 1) statements))
      (Word.body (lineWords statements)) := by
  intro rest more bounded cut
  have closed : Cuts (utf8 ")" ++ rest) (.mark .rparen :: more) :=
    cut.marks _ [.mark .rparen] (by decide)
  -- An empty body has no lines between its parentheses.
  cases statements with
  | nil =>
    have whole := closed.marks (utf8 "(") [.mark .lparen] (by decide)
    simpa [Format.body, Format.lines, Word.body, utf8] using whole
  | cons first others =>
    have lines : (Format.lines (depth + 1) (first :: others)).Forall₂ Writes
        ((first :: others).map fun node => Word.line node node.words) := by
      rw [Format.lines_eq, List.forall₂_map_left_iff, List.forall₂_map_right_iff, List.forall₂_same]
      exact fun node member => writes_line (each node member) (depth + 1)
    have joined : Writes (Bytes.join (utf8 "\n") (Format.lines (depth + 1) (first :: others)))
        (List.intercalate [] ((first :: others).map fun node => Word.line node node.words)) :=
      Writes.join lines (fun rest => ended_append (by decide) rest)
        fun cut => cut.marks _ [] (by decide)
    have ending := (closed.blanks (2 * depth)).marks (utf8 "\n") [] (by decide)
    have inside := joined (ended_append (by decide) _) ending
    have whole := inside.marks (utf8 "(\n") [.mark .lparen] (by decide)
    rw [intercalate_nil] at whole
    simpa [Format.body, Format.indent, Word.body, List.flatMap_def] using whole

theorem Cuts.otherwise {rest : Bytes} {words : List Word} (cut : Cuts rest words) :
    Cuts (utf8 " else " ++ rest) (.key .else_ :: words) := by
  have spelled : utf8 " else " = utf8 " " ++ utf8 "else " := by decide
  have keyword : Cuts (utf8 "else " ++ rest) (.key .else_ :: words) :=
    cut.spacedKey .else_ (by decide)
  rw [spelled, List.append_assoc]
  exact keyword.marks _ [] (by decide)

theorem firm_branch {branch : Branch} (condition : Written branch.condition)
    (bodies : ∀ node ∈ branch.body, Written node) (depth : Nat) :
    Firm (Format.branch depth branch) branch.words := by
  obtain ⟨span, test, statements⟩ := branch
  simp only [Branch.condition, Branch.body] at condition bodies
  intro rest more bounded cut
  have follow := firm_body bodies depth bounded cut
  have closed := follow.marks (utf8 "\x7d ") [.mark .rbrace] (by decide)
  have inside := condition.writes depth (ended_append (by decide) _) closed
  have opened := inside.marks (utf8 "\x7b") [.mark .lbrace] (by decide)
  have whole : Cuts (utf8 "if " ++ _) (.key .if_ :: _) := opened.spacedKey .if_ (by decide)
  have spelled : utf8 "if \x7b" = utf8 "if " ++ utf8 "\x7b" := by decide
  simpa [Format.branch, Branch.words, spelled] using whole

theorem writes_alternative {otherwise : Option (List Node)}
    (bodies : ∀ node ∈ otherwise.getD [], Written node) (depth : Nat) :
    Writes (Format.alternative depth otherwise) (otherwiseWords otherwise) := by
  cases otherwise with
  | none => exact Writes.nil
  | some statements =>
    intro rest more ended cut
    have follow := firm_body bodies depth ended.bounded cut
    have whole := follow.otherwise
    simpa [Format.alternative, otherwiseWords] using whole

theorem writes_property {entry : Property} (alone : Lone entry.key (.ident entry.key))
    (value : entry.value.isMissing = false → Written entry.value) (depth : Nat) :
    Writes (Format.property depth entry) entry.words := by
  obtain ⟨span, key, node⟩ := entry
  simp only [Property.key, Property.value] at alone value
  intro rest more ended cut
  unfold Format.property Property.words
  cases short : node.isMissing with
  | true =>
    have whole := cut.name alone ended.bounded
    simpa [short] using whole
  | false =>
    have inside := (value short).writes depth ended cut
    have colon := inside.marks (utf8 ": ") [.mark .colon] (by decide)
    have whole := colon.name alone (ended_append (by decide) _).bounded
    simpa [short] using whole

/-! ### Trees -/

theorem Grammar.Grammatical.isMissing_eq {v : Vocabulary} {role : Role} {node : Node}
    (grammatical : Grammatical v role node) : node.isMissing = false := by
  induction grammatical <;> first | rfl | assumption

theorem Grammar.Grammatical.finite {role : Role} {node : Node}
    (grammatical : Grammatical .scanned role node) (span : Span) (x : Float) (width : Int)
    (same : node = .number span x width) : Number.Finite x := by
  induction grammatical with
  | number read =>
    obtain ⟨-, rfl, -⟩ := Node.number.inj same
    exact read
  | ofChoice whole ih => exact ih same
  | ofExpression whole ih => exact ih same
  | choiceTerm whole ih => exact ih same
  | _ => simp at same

theorem writes_nodes {elements : List Node} (each : ∀ node ∈ elements, Written node)
    (depth : Nat) :
    Writes (Format.list (Format.nodes depth elements)) (Word.list (nodeWords elements)) := by
  refine writes_list ?_
  rw [Format.nodes_eq, nodeWords_eq, List.forall₂_map_left_iff, List.forall₂_map_right_iff,
    List.forall₂_same]
  exact fun node member => (each node member).writes depth

/-- The text of every tree that a source can have is cut into its words. -/
theorem written_of_grammatical {role : Role} {node : Node}
    (grammatical : Grammatical .scanned role node) : Written node := by
  -- Each case builds the text from its end, since what follows a word decides where the word stops.
  induction grammatical with
  | bare named =>
    refine .of_writes rfl fun depth rest more ended cut => ?_
    have whole := (cut.name named ended.bounded).marks (utf8 "? ") [.mark .question] (by decide)
    simpa [Format.node, Node.words, Node.isMissing] using whole
  | @declare returns span name constant value named initial ih =>
    refine .of_writes rfl fun depth rest more ended cut => ?_
    have signed := (ih.writes depth ended cut).marks (utf8 " = ") [.mark .assign] (by decide)
    have declared := signed.name named (ended_append (by decide) _).bounded
    cases constant with
    | true =>
      have whole := declared.marks (utf8 "! ") [.mark .bang] (by decide)
      simpa [Format.node, Node.words, initial.isMissing_eq] using whole
    | false =>
      have whole := declared.marks (utf8 "? ") [.mark .question] (by decide)
      simpa [Format.node, Node.words, initial.isMissing_eq] using whole
  | function named parameters statements ih =>
    refine .of_writes rfl fun depth rest more ended cut => ?_
    have inside := (firm_body ih depth ended.bounded cut).marks (utf8 " ") [] (by decide)
    have params := firm_params parameters (ended_append (by decide) _).bounded inside
    have spaced := params.marks (utf8 " ") [] (by decide)
    have declared := spaced.name named (ended_append (by decide) _).bounded
    have whole : Cuts (utf8 "fn " ++ _) (.key .fn :: _) := declared.spacedKey .fn (by decide)
    simpa [Format.node, Node.words] using whole
  | ret result ih =>
    refine .of_writes rfl fun depth rest more ended cut => ?_
    have whole : Cuts (utf8 "return " ++ _) (.key .return_ :: _) :=
      (ih.writes depth ended cut).spacedKey .return_ (by decide)
    simpa [Format.node, Node.words] using whole
  | ofChoice whole ih => exact ih
  | ofExpression whole ih => exact ih
  | @choice returns span branches otherwise filled conditions bodies last ihConditions ihBodies
      ihLast =>
    refine .of_writes rfl fun depth rest more ended cut => ?_
    have each : (Format.conditions depth branches).Forall₂ Writes (branchWords branches) := by
      rw [Format.conditions_eq, branchWords_eq, List.forall₂_map_left_iff,
        List.forall₂_map_right_iff, List.forall₂_same]
      exact fun branch member =>
        (firm_branch (ihConditions branch member) (ihBodies branch member) depth).writes
    have joined : Writes (Bytes.join (utf8 " else ") (Format.conditions depth branches))
        (List.intercalate [.key .else_] (branchWords branches)) :=
      Writes.join each (fun rest => ended_append (by decide) rest) Cuts.otherwise
    have alternative := writes_alternative ihLast depth ended cut
    -- The last branch is followed by `else` or by what follows the whole choice.
    have starts : Ended (Format.alternative depth otherwise ++ rest) := by
      cases otherwise with
      | none => exact ended
      | some statements =>
        rw [Format.alternative, List.append_assoc]
        exact ended_append (by decide) _
    have whole := joined starts alternative
    simpa [Format.node, Node.words] using whole
  | choiceTerm whole ih => exact ih
  | lambda parameters body ih =>
    refine .of_writes rfl fun depth rest more ended cut => ?_
    have inside := (ih.writes depth ended cut).marks (utf8 " ") [] (by decide)
    have arrow := (inside.pair .fatArrow).marks (utf8 " ") [] (by decide)
    have params := firm_params parameters (ended_append (by decide) _).bounded arrow
    have whole : Cuts (utf8 "lambda " ++ _) (.key .lambda :: _) :=
      params.spacedKey .lambda (by decide)
    have spelled : utf8 " => " = utf8 " " ++ (utf8 Fused.fatArrow.name ++ utf8 " ") := by decide
    simpa [Format.node, Node.words, spelled] using whole
  | del named =>
    refine .of_writes rfl fun depth rest more ended cut => ?_
    have whole : Cuts (utf8 "del " ++ _) (.key .del :: _) :=
      (cut.name named ended.bounded).spacedKey .del (by decide)
    simpa [Format.node, Node.words] using whole
  | @raise span message =>
    refine .of_writes rfl fun depth rest more ended cut => ?_
    have whole : Cuts (utf8 "raise " ++ _) (.key .raise :: _) :=
      (cut.text message ended.bounded).spacedKey .raise (by decide)
    simpa [Format.node, Node.words] using whole
  | assign left right ihLeft ihRight =>
    refine .of_writes rfl fun depth rest more ended cut => ?_
    have signed := (ihRight.writes depth ended cut).marks (utf8 " = ") [.mark .assign] (by decide)
    have whole := ihLeft.operand depth (ended_append (by decide) _) signed
    simpa [Format.node, Node.words] using whole
  | property inside named ih =>
    refine .of_firm fun depth rest more bounded cut => ?_
    have whole := ih.point inside.finite named depth bounded cut
    simpa [Format.node, Node.words] using whole
  | index inside computed ihInside ihKey =>
    refine .of_firm fun depth rest more bounded cut => ?_
    have closed : Cuts (utf8 "]" ++ rest) (.mark .rbracket :: more) :=
      cut.marks _ [.mark .rbracket] (by decide)
    have key := ihKey.writes depth (ended_append (by decide) _) closed
    have opened := key.marks (utf8 "[") [.mark .lbracket] (by decide)
    have whole := ihInside.operand depth (ended_append (by decide) _) opened
    simpa [Format.node, Node.words] using whole
  | call head inputs ihHead ihInputs =>
    refine .of_firm fun depth rest more bounded cut => ?_
    have closed : Cuts (utf8 ")" ++ rest) (.mark .rparen :: more) :=
      cut.marks _ [.mark .rparen] (by decide)
    have arguments := writes_nodes ihInputs depth (ended_append (by decide) _) closed
    have opened := arguments.marks (utf8 "(") [.mark .lparen] (by decide)
    have whole := ihHead.operand depth (ended_append (by decide) _) opened
    simpa [Format.node, Node.words] using whole
  | operation belongs first second ihFirst ihSecond =>
    refine .of_writes rfl fun depth rest more ended cut => ?_
    have operator := (ihSecond.operand depth ended cut).operator belongs
    have whole := ihFirst.operand depth (ended_append (by decide) _) operator
    simpa [Format.node, Node.words] using whole
  | name named => exact .of_firm fun depth rest more bounded cut => cut.name named bounded
  | number read => exact ⟨fun depth => writes_number read, by simp [Node.isNumber]⟩
  | text => exact .of_firm fun depth rest more bounded cut => cut.text _ bounded
  | array inside ih =>
    refine .of_writes rfl fun depth rest more ended cut => ?_
    have closed : Cuts (utf8 "]" ++ rest) (.mark .rbracket :: more) :=
      cut.marks _ [.mark .rbracket] (by decide)
    have elements := writes_nodes ih depth (ended_append (by decide) _) closed
    have whole := elements.marks (utf8 "[") [.mark .lbracket] (by decide)
    simpa [Format.node, Node.words] using whole
  | @object span properties keys values ih =>
    refine .of_writes rfl fun depth rest more ended cut => ?_
    have closed : Cuts (utf8 "\x7d" ++ rest) (.mark .rbrace :: more) :=
      cut.marks _ [.mark .rbrace] (by decide)
    have each : (Format.properties depth properties).Forall₂ Writes (propertyWords properties) := by
      rw [Format.properties_eq, propertyWords_eq, List.forall₂_map_left_iff,
        List.forall₂_map_right_iff, List.forall₂_same]
      exact fun entry member => writes_property (keys entry member) (ih entry member) depth
    have entries := writes_list each (ended_append (by decide) _) closed
    have whole := entries.marks (utf8 "\x7b") [.mark .lbrace] (by decide)
    simpa [Format.node, Node.words] using whole

/-- The text of a program is the words of its lines, up to the end of the source. -/
theorem cuts_program {span : Span} {statements : List Node}
    (grammatical : ∀ node ∈ statements, Grammatical .scanned (.statement false) node) :
    Cuts (Node.format (.program span statements)) (lineWords statements ++ [.last]) := by
  rw [Node.format]
  induction statements with
  | nil => exact Cuts.nil
  | cons first others ih =>
    obtain ⟨head, tail⟩ := List.forall_mem_cons.mp grammatical
    have later : Cuts (utf8 "\n" ++ _) _ := (ih tail).marks _ [] (by decide)
    have whole := writes_line (written_of_grammatical head) 0
      (ended_append (by decide) _) later
    simpa using whole

end Tide
