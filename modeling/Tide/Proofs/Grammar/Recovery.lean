import Tide.Proofs.Grammar.Spelled

/-!
# Trees read back from their words

`Recovers goal same words more` says that, wherever `words ++ more` is next, the goal takes exactly
`words` and gives something that is the same. A tree is recovered from its words by its structure:
an expression in front of anything that ends it, an operand in front of anything at all, and a
statement in front of what a line leaves behind it.
-/
namespace Tide

namespace Grammar

open Format

def Recovers {shape : Shape} (goal : Goal shape) (same : shape.Result → Prop)
    (words more : List Word) : Prop :=
  ∀ s : Stream, s.At (words ++ more) →
    ∃ result t, Reads goal s result t ∧ same result ∧ t.At more

/-- The node again, and what follows it may still extend it. -/
def RecoversOperand (place : Place) (node : Node) (words : List Word) : Prop :=
  ∀ (s : Stream) (more : List Word), s.At (words ++ more) → ∃ again t,
    again.content = node.content ∧ t.At more ∧
      ∀ result u, Reads (.accesses place again) t result u → Reads (.accessed place) s result u

def SameNode (node again : Node) : Prop := again.content = node.content

def SameNodes (nodes again : List Node) : Prop :=
  again.map Node.content = nodes.map Node.content

/-- Words that do not go on with another alternative. -/
def NoElse (words : List Word) : Prop := ∀ w ∈ words.head?, w.kind ≠ .keyword .else_

def RecoversChoice (returning : Bool) (node : Node) : Prop :=
  ∀ place more, (returning = true → returns place = true) → NoElse more →
    Recovers (.choice place) (SameNode node) node.words more

structure RecoversExpression (node : Node) : Prop where
  whole : ∀ place w more, closes w.kind = true →
    Recovers (.expression place) (SameNode node) node.words (w :: more)
  operand : isAtomic node = true → ∀ place, RecoversOperand place node node.words
  block : isBlock node = true → RecoversChoice false node

/-! ### From terms and operands to expressions -/

theorem RecoversOperand.of_term {place : Place} {node : Node} {words : List Word}
    (term : ∀ more, Recovers (.term place) (SameNode node) words more) :
    RecoversOperand place node words := by
  intro s more here
  obtain ⟨again, t, read, same, behind⟩ := term more s here
  exact ⟨again, t, same, behind, fun result u rest => .accessed read rest⟩

/-- What ends an expression is no access either. -/
theorem Reads.noAccess_of_closes {place : Place} {t : Stream} {w : Word} {words : List Word}
    (behind : t.At (w :: words)) (closed : closes w.kind = true) (node : Node) :
    Reads (.accesses place node) t node t := by
  rw [← (behind.take (noPair_of_closes closed)).1] at closed
  refine .noAccess ?_ ?_ ?_ <;>
  · intro kind
    simp [kind, closes] at closed

theorem Begins.head {kinds : Kind → Bool} {words more : List Word} {s : Stream}
    (begins : Begins kinds words) (single : ∀ kind, kinds kind = true → kind.isPair = false)
    (here : s.At (words ++ more)) : kinds s.head.kind = true := by
  obtain ⟨w, rest, rfl, kind⟩ := begins
  rw [(here.take (single _ kind)).1]
  exact kind

theorem RecoversExpression.of_term {node : Node} (notAtomic : isAtomic node = false)
    (block : isBlock node = true → RecoversChoice false node)
    (plain : ∃ k, Begins (· = .keyword k) node.words)
    (term : ∀ place w more, closes w.kind = true →
      Recovers (.term place) (SameNode node) node.words (w :: more)) :
    RecoversExpression node where
  whole := by
    intro place w more closed s here
    obtain ⟨again, t, read, same, behind⟩ := term place w more closed s here
    obtain ⟨k, begins⟩ := plain
    have kind : s.head.kind = .keyword k := by
      simpa using begins.head (by simp [Kind.isPair]) here
    have settled := fun level => settled_of_closes level behind closed
    have accessed := Reads.accessed read (.noAccess_of_closes behind closed again)
    have chain := Reads.settle .comparison accessed (settled _)
    exact ⟨again, t, chain.expression_of_chain .comparison (by simp [kind]) (by simp [kind])
      settled, same, behind⟩
  operand atomic := by simp [notAtomic] at atomic
  block := block

theorem noPair_of_startsOperand (kind : Kind) (start : startsOperand kind = true) :
    kind.isPair = false :=
  noPair_of_startsExpression (expression_of_operand kind start)

/-- A stream in front of an operand is in front of no literal in brackets or braces. -/
theorem Begins.noLiteral {words more : List Word} {s : Stream}
    (begins : Begins startsOperand words) (here : s.At (words ++ more)) :
    s.head.kind ≠ .symbol .lbrace ∧ s.head.kind ≠ .symbol .lbracket := by
  have start := begins.head noPair_of_startsOperand here
  constructor <;>
  · intro kind
    simp [kind, startsOperand] at start

theorem RecoversExpression.of_operand {node : Node} (noBlock : isBlock node = false)
    (begins : Begins startsOperand node.words)
    (operand : ∀ place, RecoversOperand place node node.words) : RecoversExpression node where
  whole := by
    intro place w more closed s here
    obtain ⟨again, t, same, behind, extend⟩ := operand place s (w :: more) here
    obtain ⟨noObject, noArray⟩ := begins.noLiteral here
    have settled := fun level => settled_of_closes level behind closed
    have accessed := extend again t (.noAccess_of_closes behind closed again)
    have chain := Reads.settle .comparison accessed (settled _)
    exact ⟨again, t, chain.expression_of_chain .comparison noObject noArray settled, same, behind⟩
  operand _ := operand
  block blocked := by simp [noBlock] at blocked

/-- Any expression is an operand, in parentheses if it has to be. -/
theorem RecoversExpression.parenthesized {node : Node} (recovers : RecoversExpression node)
    (place : Place) : RecoversOperand place node (Word.parenthesize node node.words) := by
  unfold Word.parenthesize
  split
  next atomic => exact recovers.operand atomic place
  next =>
    refine .of_term fun more s here => ?_
    simp only [Word.body, List.cons_append, List.append_assoc] at here
    obtain ⟨opening, inside⟩ := here.mark
    obtain ⟨again, t, read, same, behind⟩ := recovers.whole place (.mark .rparen) more rfl _ inside
    obtain ⟨closing, behind⟩ := behind.mark
    exact ⟨again, t.tail, .parenthesized opening read closing, same, behind⟩

/-! ### Operations -/

theorem Reads.noAccess_of_operator (level : Level) {place : Place} {t : Stream} {operator : Kind}
    {words : List Word} (behind : t.At (.fixed operator :: words))
    (belongs : level.isOperator operator = true) (node : Node) :
    Reads (.accesses place node) t node t := by
  have other : t.head.kind ≠ .symbol .lparen ∧ t.head.kind ≠ .symbol .dot ∧
      t.head.kind ≠ .symbol .lbracket := by
    obtain ⟨rest, place⟩ := t
    -- An operator begins no access, and neither does the first half of a long one.
    cases behind with
    | word kind =>
      simp only [Stream.head, List.headD_cons, kind, Word.fixed]
      refine ⟨?_, ?_, ?_⟩ <;>
      · rintro rfl
        cases level <;> simp [Level.isOperator, isAdditive, isMultiplicative, isLogical,
          isComparison] at belongs
    | pair operator first =>
      simp only [Stream.head, List.headD_cons, first]
      cases operator <;> decide
  exact .noAccess other.1 other.2.1 other.2.2

/-- The first operand of an operator, up to the operator. -/
theorem RecoversExpression.first {left : Node} (recovers : RecoversExpression left)
    (begins : isAtomic left = true → Begins startsOperand left.words) (level : Level)
    {operator : Kind} (belongs : level.isOperator operator = true) {words : List Word}
    (next : Begins startsExpression words) (place : Place) {s : Stream}
    (here : s.At (Word.parenthesize left left.words ++ .fixed operator :: words)) :
    ∃ again t, again.content = left.content ∧ Reads (level.operand place) s again t ∧
      (level.prepare t).head.kind = operator ∧ (level.prepare t).tail.At words := by
  obtain ⟨noObject, noArray⟩ := (begins_operand begins).noLiteral here
  obtain ⟨again, t, same, behind, extend⟩ := recovers.parenthesized place s _ here
  obtain ⟨kind, after, settled⟩ := operator_of_at level behind belongs next
  have accessed := extend again t (.noAccess_of_operator level behind belongs again)
  exact ⟨again, t, same, accessed.operand_of_accessed level noObject noArray settled, kind, after⟩

/-- The last operand of an operator, up to the end of the expression. -/
theorem RecoversExpression.second {right : Node} (recovers : RecoversExpression right)
    (begins : isAtomic right = true → Begins startsOperand right.words) (level : Level)
    (place : Place) {s : Stream} {w : Word} {more : List Word} (closed : closes w.kind = true)
    (here : s.At (Word.parenthesize right right.words ++ w :: more)) :
    ∃ again t, again.content = right.content ∧ Reads (level.operand place) s again t ∧
      t.At (w :: more) := by
  obtain ⟨noObject, noArray⟩ := (begins_operand begins).noLiteral here
  obtain ⟨again, t, same, behind, extend⟩ := recovers.parenthesized place s _ here
  have accessed := extend again t (.noAccess_of_closes behind closed again)
  exact ⟨again, t, same, accessed.operand_of_accessed level noObject noArray
    fun tighter _ => settled_of_closes tighter behind closed, behind⟩

theorem Reads.chain_of_operands (level : Level) {place : Place} {s t u : Stream}
    {left right : Node} {operator : Kind} (belongs : level.isOperator operator = true)
    (first : Reads (level.operand place) s left t) (kind : (level.prepare t).head.kind = operator)
    (second : Reads (level.operand place) (level.prepare t).tail right u)
    (settled : level.Settled u) :
    Reads (.chain level place) s (level.combine operator left right) u := by
  subst kind
  cases grouping : level.groupsLeft with
  | false => exact .right grouping first belongs (second.settle level settled)
  | true =>
    have prepared : level.prepare t = t := by cases level <;> first | rfl | contradiction
    rw [prepared] at belongs second ⊢
    exact .left grouping first (.more belongs second (.noMore settled.2))

theorem level_of_family {family : Family} {operator : Kind}
    (belongs : isOperatorOf family operator = true) : ∃ level : Level,
      level.isOperator operator = true ∧ level.combine operator = operation family operator := by
  cases family with
  | arithmetic =>
    rw [isOperatorOf, Bool.or_eq_true] at belongs
    rcases belongs with additive | multiplicative
    · exact ⟨.sum, additive, rfl⟩
    · exact ⟨.product, multiplicative, rfl⟩
  | comparison => exact ⟨.comparison, belongs, rfl⟩
  | logical => exact ⟨.logical, belongs, rfl⟩

theorem RecoversExpression.operation {span : Span} {family : Family} {operator : Kind}
    {left right : Node} (belongs : isOperatorOf family operator = true)
    (first : RecoversExpression left) (second : RecoversExpression right)
    (firstBegins : isAtomic left = true → Begins startsOperand left.words)
    (secondBegins : isAtomic right = true → Begins startsOperand right.words) :
    RecoversExpression (.operation span family operator left right) where
  whole := by
    intro place w more closed s here
    obtain ⟨level, sign, combine⟩ := level_of_family belongs
    rw [Node.words, List.append_assoc, List.cons_append] at here
    obtain ⟨noObject, noArray⟩ := (begins_operand firstBegins).noLiteral here
    have next := ((begins_operand secondBegins).append (w :: more)).mono expression_of_operand
    obtain ⟨left', t, sameLeft, readLeft, kind, after⟩ := first.first firstBegins level sign next
      place here
    obtain ⟨right', u, sameRight, readRight, behind⟩ := second.second secondBegins level place
      closed after
    -- No operator closes an expression, so nothing goes on with the chain.
    have settled := fun level => settled_of_closes level behind closed
    have chain := Reads.chain_of_operands level sign readLeft kind readRight (settled _)
    refine ⟨_, u, chain.expression_of_chain level noObject noArray settled, ?_, behind⟩
    rw [combine]
    simp [SameNode, Grammar.operation, Node.forget, sameLeft, sameRight]
  operand atomic := by simp [isAtomic] at atomic
  block blocked := by simp [isBlock] at blocked

theorem RecoversExpression.assign {span : Span} {target value : Node}
    (left : RecoversExpression target) (right : RecoversExpression value)
    (leftBegins : isAtomic target = true → Begins startsOperand target.words)
    (rightBegins : Begins startsExpression value.words) :
    RecoversExpression (.assign span target value) where
  whole := by
    intro place w more closed s here
    rw [Node.words, List.append_assoc, List.cons_append] at here
    obtain ⟨target', t, sameTarget, readTarget, kind, after⟩ := left.first leftBegins .assignment
      rfl (rightBegins.append (w :: more)) place here
    obtain ⟨value', u, readValue, sameValue, behind⟩ := right.whole place w more closed _ after
    refine ⟨_, u, .right rfl readTarget (by simp [kind, Level.isOperator]) readValue, ?_, behind⟩
    simp_all [SameNode, Level.combine, Node.forget]
  operand atomic := by simp [isAtomic] at atomic
  block blocked := by simp [isBlock] at blocked

/-! ### Lists -/

theorem list_cons (first second : List Word) (rest : List (List Word)) :
    Word.list (first :: second :: rest) = first ++ .mark .comma :: Word.list (second :: rest) := by
  simp [Word.list, List.intercalate_cons_cons]

@[simp] theorem list_single (only : List Word) : Word.list [only] = only := by
  simp [Word.list, List.intercalate]

theorem recovers_items {first : Node} {rest : List Node}
    (each : ∀ node ∈ first :: rest, RecoversExpression node) (place : Place) {w : Word}
    (closed : closes w.kind = true) (noComma : w.kind ≠ .symbol .comma) (more : List Word) :
    Recovers (.items place) (SameNodes (first :: rest))
      (Word.list ((first :: rest).map Node.words)) (w :: more) := by
  -- On the elements: behind all but the last one stands a comma.
  induction rest generalizing first with
  | nil =>
    intro s here
    rw [List.map_singleton, list_single] at here
    obtain ⟨again, t, read, same, behind⟩ := (each first (by simp)).whole place w more closed s here
    have kind := (behind.take (noPair_of_closes closed)).1
    exact ⟨[again], t, .item read (kind ▸ noComma), congrArg (fun node => [node]) same, behind⟩
  | cons second rest ih =>
    intro s here
    simp only [List.map_cons, list_cons, List.append_assoc, List.cons_append] at here
    obtain ⟨again, t, read, same, behind⟩ := (each first (by simp)).whole place _ _ rfl s here
    obtain ⟨comma, behind⟩ := behind.mark
    obtain ⟨others, u, readRest, sameRest, after⟩ :=
      ih (fun node member => each node (List.mem_cons_of_mem _ member)) t.tail behind
    refine ⟨again :: others, u, .items read comma readRest, ?_, after⟩
    simp_all [SameNodes, SameNode]

theorem recovers_list {nodes : List Node} (each : ∀ node ∈ nodes, RecoversExpression node)
    (begins : ∀ node ∈ nodes, Begins startsExpression node.words) (place : Place)
    {closing : Symbol} (closed : closes (.symbol closing) = true) (noComma : closing ≠ .comma)
    (more : List Word) :
    Recovers (.list closing place) (SameNodes nodes)
      (Word.list (nodes.map Node.words) ++ [.mark closing]) more := by
  intro s here
  rw [List.append_assoc, List.singleton_append] at here
  cases nodes with
  | nil =>
    obtain ⟨kind, behind⟩ := Stream.At.mark here
    exact ⟨[], s.tail, .empty kind, rfl, behind⟩
  | cons first rest =>
    -- A list that is not empty begins like an expression, and so not with its closing symbol.
    have filled : s.head.kind ≠ .symbol closing := by
      have start : Begins startsExpression (Word.list ((first :: rest).map Node.words)) := by
        cases rest with
        | nil => simpa using begins first (by simp)
        | cons second rest =>
          rw [List.map_cons, List.map_cons, list_cons]
          exact (begins first (by simp)).append _
      intro same
      have kind := start.head (fun _ start => noPair_of_startsExpression start) here
      rw [same] at kind
      cases closing <;> simp [closes, startsExpression, startsOperand] at closed kind
    obtain ⟨again, t, read, same, behind⟩ :=
      recovers_items each place closed (by simpa [Word.fixed] using noComma) more s here
    obtain ⟨kind, behind⟩ := behind.mark
    exact ⟨again, t.tail, .list filled read kind, same, behind⟩

theorem recovers_names {first : Bytes} {rest : List Bytes} (more : List Word) :
    Recovers .names (· = first :: rest)
      (Word.list ((first :: rest).map fun name => [.ident name])) (.mark .pipe :: more) := by
  induction rest generalizing first with
  | nil =>
    intro s here
    rw [List.map_singleton, list_single] at here
    obtain ⟨kind, lexeme, behind⟩ := Stream.At.ident here
    exact ⟨_, s.tail, .lastName kind (by simp [behind.mark.1]), by rw [lexeme], behind⟩
  | cons second rest ih =>
    intro s here
    simp only [List.map_cons, list_cons, List.append_assoc, List.cons_append] at here
    obtain ⟨kind, lexeme, behind⟩ := Stream.At.ident here
    obtain ⟨comma, behind⟩ := behind.mark
    obtain ⟨others, u, read, same, after⟩ := ih s.tail.tail behind
    exact ⟨_, u, .names kind comma read, by rw [lexeme, same], after⟩

theorem recovers_params (names : List Bytes) (more : List Word) :
    Recovers .params (· = names) (Word.params names) more := by
  intro s here
  simp only [Word.params, List.cons_append, List.append_assoc] at here
  obtain ⟨opening, inside⟩ := here.mark
  cases names with
  | nil =>
    obtain ⟨closing, behind⟩ := Stream.At.mark inside
    exact ⟨[], s.tail.tail, .noParams opening closing, rfl, behind⟩
  | cons first rest =>
    -- A name is no bar, so the parameters are not over at once.
    have filled : s.tail.head.kind ≠ .symbol .pipe := by
      have start : Begins (· = .ident)
          (Word.list ((first :: rest).map fun name => [Word.ident name])) := by
        cases rest with
        | nil => exact ⟨_, _, rfl, rfl⟩
        | cons second rest => exact ⟨_, _, list_cons .., rfl⟩
      have kind := start.head (by simp [Kind.isPair]) inside
      simp only [decide_eq_true_eq] at kind
      simp [kind]
    obtain ⟨again, t, read, same, behind⟩ := recovers_names more s.tail inside
    obtain ⟨closing, behind⟩ := behind.mark
    exact ⟨again, t.tail, .params opening filled read closing, same, behind⟩

def SameEntries (entries again : List Property) : Prop :=
  again.map (Property.forget fun _ => 0) = entries.map (Property.forget fun _ => 0)

/-- An entry in front of a comma. -/
theorem recovers_entry {entry : Property} (value : entry.value.isMissing = false →
    RecoversExpression entry.value) (place : Place) {s : Stream} {w : Word} {more : List Word}
    (closed : closes w.kind = true) (here : s.At (entry.words ++ w :: more)) :
    s.head.kind = .ident ∧ s.head.lexeme = entry.key ∧
      ((entry.value.isMissing = true ∧ s.tail.At (w :: more)) ∨
        (entry.value.isMissing = false ∧ s.tail.head.kind = .symbol .colon ∧
          ∃ again t, Reads (.expression place) s.tail.tail again t ∧
            again.content = entry.value.content ∧ t.At (w :: more))) := by
  obtain ⟨span, key, node⟩ := entry
  simp only [Property.value, Property.key, Property.words] at value here ⊢
  rw [List.cons_append] at here
  obtain ⟨kind, lexeme, behind⟩ := here.ident
  refine ⟨kind, lexeme, ?_⟩
  -- An entry without a value is its key alone.
  cases missing : node.isMissing with
  | true =>
    rw [missing, if_pos rfl, List.nil_append] at behind
    exact .inl ⟨rfl, behind⟩
  | false =>
    simp only [missing, Bool.false_eq_true, if_false, List.cons_append] at behind
    obtain ⟨colon, behind⟩ := behind.mark
    obtain ⟨again, t, read, same, behind⟩ := (value missing).whole place w more closed _ behind
    exact .inr ⟨rfl, colon, again, t, read, same, behind⟩

theorem recovers_properties {entries : List Property}
    (each : ∀ entry ∈ entries, entry.value.isMissing = false → RecoversExpression entry.value)
    (place : Place) (more : List Word) :
    Recovers (.properties place) (SameEntries entries)
      (Word.list (entries.map Property.words)) (.mark .rbrace :: more) := by
  have missing : ∀ node : Node, node.isMissing = true → node = .missing := by
    intro node
    cases node <;> simp [Node.isMissing]
  induction entries with
  | nil =>
    intro s here
    exact ⟨[], s, .noProperties (.inr (Stream.At.mark here).1), rfl, here⟩
  | cons entry rest ih =>
    have later := ih fun entry member => each entry (List.mem_cons_of_mem _ member)
    have valued := each entry (by simp)
    obtain ⟨span, key, value⟩ := entry
    intro s here
    -- The last entry is followed by the closing brace, all others by a comma.
    cases rest with
    | nil =>
      rw [List.map_singleton, list_single] at here
      obtain ⟨kind, lexeme, ⟨absent, behind⟩ | ⟨present, colon, again, t, read, same, behind⟩⟩ :=
        recovers_entry valued place rfl here
      · obtain ⟨last, u, readRest, sameRest, after⟩ := later _ behind
        refine ⟨_, u, .lastShort kind behind.mark.1 readRest, ?_, after⟩
        simp_all [SameEntries, Property.forget, Property.key, Property.value, missing value absent]
      · obtain ⟨last, u, readRest, sameRest, after⟩ := later _ behind
        refine ⟨_, u, .lastValued kind colon read behind.mark.1 readRest, ?_, after⟩
        simp_all [SameEntries, Property.forget, Property.key, Property.value]
    | cons second rest =>
      simp only [List.map_cons, list_cons, List.append_assoc, List.cons_append] at here
      obtain ⟨kind, lexeme, ⟨absent, behind⟩ | ⟨present, colon, again, t, read, same, behind⟩⟩ :=
        recovers_entry valued place rfl here
      · obtain ⟨comma, behind⟩ := behind.mark
        obtain ⟨others, u, readRest, sameRest, after⟩ := later _ behind
        refine ⟨_, u, .short kind comma readRest, ?_, after⟩
        simp_all [SameEntries, Property.forget, Property.key, Property.value, missing value absent]
      · obtain ⟨comma, behind⟩ := behind.mark
        obtain ⟨others, u, readRest, sameRest, after⟩ := later _ behind
        refine ⟨_, u, .valued kind colon read comma readRest, ?_, after⟩
        simp_all [SameEntries, Property.forget, Property.key, Property.value]

/-! ### Terms and accesses -/

theorem RecoversOperand.name {place : Place} {span : Span} {name : Bytes} :
    RecoversOperand place (.name span name) [.ident name] := by
  refine .of_term fun more s here => ?_
  obtain ⟨kind, lexeme, behind⟩ := Stream.At.ident here
  exact ⟨_, s.tail, .name kind, by simp [SameNode, Node.forget, lexeme], behind⟩

theorem RecoversOperand.text {place : Place} {span : Span} {value : Bytes} :
    RecoversOperand place (.text span value (Utf8.count value)) [.text value] := by
  refine .of_term fun more s here => ?_
  obtain ⟨kind, lexeme, behind⟩ := Stream.At.text here
  exact ⟨_, s.tail, .text kind, by simp [SameNode, Node.forget, lexeme], behind⟩

theorem RecoversOperand.number {place : Place} {span : Span} {value : Float} {width : Int}
    (finite : Number.Finite value) :
    RecoversOperand place (.number span value width) (Word.number (Number.render value)) := by
  refine .of_term fun more s here => ?_
  -- The sign of a negative number is a token of its own.
  obtain ⟨run, ⟨words, reading⟩ | ⟨words, reading⟩⟩ := number_words finite
  · rw [words] at here
    obtain ⟨kind, lexeme, behind⟩ := Stream.At.digits here
    refine ⟨_, s.tail, .number kind (lexeme ▸ reading), ?_, behind⟩
    simp [SameNode, Node.forget]
  · rw [words] at here
    obtain ⟨sign, minus, here⟩ := here.take rfl
    obtain ⟨kind, lexeme, behind⟩ := Stream.At.digits here
    have together : s.head.lexeme ++ s.tail.head.lexeme = '-'.toUInt8 :: run := by
      rw [minus, lexeme]
      rfl
    refine ⟨_, s.tail.tail, .signed (.inl sign) kind (together ▸ reading), ?_, behind⟩
    simp [SameNode, Node.forget]

theorem RecoversExpression.property {span keySpan : Span} {object : Node} {key : Bytes}
    (recovers : RecoversExpression object) (noNumber : object.isNumber = false) (place : Place) :
    RecoversOperand place (.member span object (.name keySpan key) false)
      (Word.point object object.words ++ [.ident key]) := by
  intro s more here
  simp only [Word.point_of_noNumber noNumber, List.append_assoc, List.cons_append,
    List.nil_append] at here
  obtain ⟨again, t, same, behind, extend⟩ := recovers.parenthesized place s _ here
  obtain ⟨point, behind⟩ := behind.mark
  obtain ⟨kind, lexeme, behind⟩ := behind.ident
  refine ⟨_, t.tail.tail, ?_, behind, fun result u rest => extend result u (.property point kind rest)⟩
  simp [Node.forget, same, lexeme]

theorem RecoversExpression.index {span : Span} {object key : Node}
    (recovers : RecoversExpression object) (computed : RecoversExpression key) (place : Place) :
    RecoversOperand place (.member span object key true)
      (Word.parenthesize object object.words ++
        .mark .lbracket :: (key.words ++ [.mark .rbracket])) := by
  intro s more here
  simp only [List.append_assoc, List.cons_append, List.nil_append] at here
  obtain ⟨again, t, same, behind, extend⟩ := recovers.parenthesized place s _ here
  obtain ⟨opening, inside⟩ := behind.mark
  obtain ⟨key', u, read, sameKey, behind⟩ := computed.whole place (.mark .rbracket) more rfl _ inside
  obtain ⟨closing, behind⟩ := behind.mark
  refine ⟨_, u.tail, ?_, behind,
    fun result v rest => extend result v (.index opening read closing rest)⟩
  simp_all [SameNode, Node.forget]

theorem RecoversExpression.call {span : Span} {callee : Node} {arguments : List Node}
    (recovers : RecoversExpression callee) (each : ∀ node ∈ arguments, RecoversExpression node)
    (begins : ∀ node ∈ arguments, Begins startsExpression node.words) (place : Place) :
    RecoversOperand place (.call span callee arguments)
      (Word.parenthesize callee callee.words ++
        .mark .lparen :: (Word.list (arguments.map Node.words) ++ [.mark .rparen])) := by
  intro s more here
  rw [List.append_assoc, List.cons_append] at here
  obtain ⟨again, t, same, behind, extend⟩ := recovers.parenthesized place s _ here
  obtain ⟨opening, inside⟩ := behind.mark
  obtain ⟨inputs, u, read, sameInputs, behind⟩ :=
    recovers_list each begins place rfl (by decide) more _ inside
  refine ⟨_, u, ?_, behind, fun result v rest => extend result v (.call opening read rest)⟩
  simp_all [SameNodes, Node.forget]

theorem RecoversExpression.array {span : Span} {elements : List Node}
    (each : ∀ node ∈ elements, RecoversExpression node)
    (begins : ∀ node ∈ elements, Begins startsExpression node.words) :
    RecoversExpression (.array span elements) where
  whole := by
    intro place w more closed s here
    rw [Node.words, nodeWords_eq, List.cons_append] at here
    obtain ⟨opening, inside⟩ := here.mark
    obtain ⟨again, t, read, same, behind⟩ :=
      recovers_list each begins place rfl (by decide) (w :: more) _ inside
    have settled := settled_of_closes .assignment behind closed
    refine ⟨_, t, Reads.settle .assignment (.array opening read) settled, ?_, behind⟩
    simp_all [SameNode, SameNodes, Node.forget]
  operand atomic := by simp [isAtomic] at atomic
  block blocked := by simp [isBlock] at blocked

theorem RecoversExpression.object {span : Span} {entries : List Property}
    (each : ∀ entry ∈ entries, entry.value.isMissing = false → RecoversExpression entry.value) :
    RecoversExpression (.object span entries) where
  whole := by
    intro place w more closed s here
    simp only [Node.words, propertyWords_eq, List.cons_append, List.append_assoc] at here
    obtain ⟨opening, inside⟩ := here.mark
    obtain ⟨again, t, read, same, behind⟩ := recovers_properties each place (w :: more) _ inside
    obtain ⟨closing, behind⟩ := behind.mark
    have settled := settled_of_closes .assignment behind closed
    refine ⟨_, t.tail, Reads.settle .assignment (.object opening read closing) settled, ?_, behind⟩
    simp_all [SameNode, SameEntries, Node.forget]
  operand atomic := by simp [isAtomic] at atomic
  block blocked := by simp [isBlock] at blocked

theorem RecoversExpression.lambda {span : Span} {params : List Bytes} {value : Node}
    (body : RecoversExpression value) : RecoversExpression (.lambda span params value) := by
  refine .of_term rfl (by simp [isBlock]) ⟨.lambda, _, _, by rw [Node.words], rfl⟩ ?_
  intro place w more closed s here
  rw [Node.words, List.cons_append, List.append_assoc, List.cons_append] at here
  obtain ⟨keyword, here⟩ := here.key
  obtain ⟨names, t, readNames, sameNames, behind⟩ := recovers_params params _ _ here
  obtain ⟨arrow, behind⟩ := behind.fuse_pair (List.mem_singleton.mpr rfl)
  obtain ⟨again, u, read, same, after⟩ := body.whole .nested w more closed _ behind
  refine ⟨_, u, .lambda keyword readNames arrow read, ?_, after⟩
  simp_all [SameNode, Node.forget]

theorem RecoversExpression.del {span : Span} {name : Bytes} :
    RecoversExpression (.del span name) := by
  refine .of_term rfl (by simp [isBlock]) ⟨.del, _, _, by rw [Node.words], rfl⟩ ?_
  intro place w more closed s here
  rw [Node.words] at here
  obtain ⟨keyword, here⟩ := Stream.At.key here
  obtain ⟨kind, lexeme, behind⟩ := Stream.At.ident here
  exact ⟨_, _, .del keyword kind, by simp [SameNode, Node.forget, lexeme], behind⟩

theorem RecoversExpression.raise {span : Span} {message : Bytes} :
    RecoversExpression (.raise span message) := by
  refine .of_term rfl (by simp [isBlock]) ⟨.raise, _, _, by rw [Node.words], rfl⟩ ?_
  intro place w more closed s here
  rw [Node.words] at here
  obtain ⟨keyword, here⟩ := Stream.At.key here
  obtain ⟨kind, lexeme, behind⟩ := Stream.At.text here
  exact ⟨_, _, .raise keyword kind, by simp [SameNode, Node.forget, lexeme], behind⟩

/-! ### Statements -/

/-- What stands behind a statement. A separator may be left out only behind a body. -/
structure Ends (node : Node) (more : List Word) : Prop where
  separated : isBlock node = false → ∃ rest, more = .mark .semicolon :: rest
  noElse : NoElse more

def RecoversStatement (returning : Bool) (node : Node) : Prop :=
  ∀ place more, (returning = true → returns place = true) → Ends node more →
    ∀ s : Stream, s.At (node.words ++ more) → ∃ again t,
      Reads (.statement place) s again t ∧ again.content = node.content ∧ t.Near more

/-- What the lines of a body, or the end of them, begin with. -/
def startsLine (kind : Kind) : Bool := startsStatement kind || stops true kind

theorem startsLine_spec {kind : Kind} (start : startsLine kind = true) :
    kind.isPair = false ∧ kind ≠ .symbol .semicolon ∧ kind ≠ .keyword .else_ := by
  refine ⟨?_, ?_, ?_⟩
  · cases kind <;> first | rfl |
      simp [startsLine, startsStatement, startsExpression, startsOperand, stops] at start
  all_goals
    rintro rfl
    simp [startsLine, startsStatement, startsExpression, startsOperand, stops] at start

theorem noPair_of_startsStatement (kind : Kind) (start : startsStatement kind = true) :
    kind.isPair = false :=
  (startsLine_spec (by simp [startsLine, start])).1

theorem begins_lines {nodes : List Node}
    (begins : ∀ node ∈ nodes, Begins startsStatement node.words) {w : Word}
    (stop : stops true w.kind = true) (more : List Word) :
    Begins startsLine (lineWords nodes ++ w :: more) := by
  cases nodes with
  | nil => exact ⟨w, more, rfl, by simp [startsLine, stop]⟩
  | cons first rest =>
    rw [lineWords, Word.line, List.append_assoc, List.append_assoc]
    exact ((begins first (by simp)).append _).mono fun kind start => by simp [startsLine, start]

/-- The lines of a program or a body. The separators in front of them count for nothing. -/
theorem recovers_lines {returning : Bool} {nodes : List Node}
    (each : ∀ node ∈ nodes, RecoversStatement returning node)
    (begins : ∀ node ∈ nodes, Begins startsStatement node.words) {place : Place}
    (allowed : returning = true → returns place = true) (nested : Bool) {w : Word}
    (stop : stops nested w.kind = true) (more : List Word) {s : Stream}
    (here : s.skip.At (lineWords nodes ++ w :: more)) :
    ∃ again t, Reads (.statements nested place) s again t ∧ SameNodes nodes again ∧
      t.At (w :: more) := by
  have stopTrue : stops true w.kind = true := by
    cases nested <;> simp_all [stops]
  induction nodes generalizing s with
  | nil =>
    have kind := (Stream.At.take here (startsLine_spec (by simp [startsLine, stopTrue])).1).1
    exact ⟨[], s.skip, .noStatements (kind ▸ stop), rfl, here⟩
  | cons first rest ih =>
    have later := begins_lines (fun node member => begins node (List.mem_cons_of_mem _ member))
      stopTrue more
    obtain ⟨v, others, front, start⟩ := later
    have next := startsLine_spec start
    rw [lineWords, Word.line, List.append_assoc, List.append_assoc, front] at here
    have going : stops nested s.skip.head.kind = false := by
      have kind := (begins first (by simp)).head noPair_of_startsStatement here
      cases nested <;> cases found : s.skip.head.kind <;>
        simp [found, stops, startsStatement, startsExpression, startsOperand] at kind ⊢
      rintro rfl
      simp at kind
    -- A block needs no separator behind it, but then the next line must not begin with an `else`.
    have ends : Ends first ((if isBlock first then [] else [.mark .semicolon]) ++ v :: others) := by
      refine ⟨fun line => ⟨v :: others, by simp [line]⟩, ?_⟩
      split
      · simpa [NoElse] using next.2.2
      · simp [NoElse, Word.fixed]
    obtain ⟨again, t, read, same, near⟩ := each first (by simp) place _ allowed ends _ here
    have behind : t.skip.At (lineWords rest ++ w :: more) := by
      rw [front]
      refine near.skip ?_ ?_
      · split <;> simp
      · simpa using ⟨next.1, next.2.1⟩
    obtain ⟨nodes', u, readRest, sameRest, after⟩ :=
      ih (fun node member => each node (List.mem_cons_of_mem _ member))
        (fun node member => begins node (List.mem_cons_of_mem _ member)) behind
    refine ⟨again :: nodes', u, .statements going read readRest, ?_, after⟩
    simp_all [SameNodes]

/-! ### Bodies and choices -/

/-- The statements of a body come back, wherever they may stand. -/
structure RecoversBody (returning : Bool) (nodes : List Node) : Prop where
  each : ∀ node ∈ nodes, RecoversStatement returning node
  begins : ∀ node ∈ nodes, Begins startsStatement node.words

theorem RecoversBody.body {returning : Bool} {nodes : List Node}
    (recovers : RecoversBody returning nodes) {place : Place}
    (allowed : returning = true → returns place = true) (more : List Word) :
    Recovers (.body place) (SameNodes nodes) (Word.body (lineWords nodes)) more := by
  intro s here
  simp only [Word.body, List.cons_append, List.append_assoc] at here
  obtain ⟨opening, inside⟩ := here.mark
  obtain ⟨v, others, front, start⟩ := begins_lines recovers.begins
    (show stops true (Word.mark .rparen).kind = true from rfl) more
  have next := startsLine_spec start
  -- No line begins with a separator, so nothing is skipped in front of the first one.
  have skipped : s.tail.skip = s.tail :=
    Stream.At.skip_eq_self (front ▸ inside) next.1 next.2.1
  rw [← skipped] at inside
  obtain ⟨again, t, read, same, behind⟩ := recovers_lines recovers.each recovers.begins allowed
    true rfl more inside
  obtain ⟨closing, behind⟩ := behind.mark
  exact ⟨again, t.tail, .body opening read closing, same, behind⟩

def SameBranch (branch again : Branch) : Prop :=
  again.forget (fun _ => 0) = branch.forget fun _ => 0

structure RecoversBranch (returning : Bool) (branch : Branch) : Prop where
  condition : RecoversExpression branch.condition
  begins : Begins startsExpression branch.condition.words
  body : RecoversBody returning branch.body

theorem recovers_branch {returning : Bool} {branch : Branch}
    (recovers : RecoversBranch returning branch) {place : Place}
    (allowed : returning = true → returns place = true) (start : Position) (more : List Word)
    {s : Stream} (here : s.At (branch.words ++ more)) :
    s.head.kind = .keyword .if_ ∧ ∃ again t, Reads (.branch place start) s.tail again t ∧
      SameBranch branch again ∧ t.At more := by
  obtain ⟨condition, begins, body⟩ := recovers
  obtain ⟨span, node, statements⟩ := branch
  simp only [Branch.condition, Branch.body, Branch.words] at condition begins body here
  simp only [List.cons_append, List.append_assoc] at here
  obtain ⟨keyword, here⟩ := here.key
  obtain ⟨opening, inside⟩ := here.mark
  -- An empty condition is refused, but this one begins like an expression.
  have filled : s.tail.tail.head.kind ≠ .symbol .rbrace := by
    intro closing
    have kind := begins.head (fun _ start => noPair_of_startsExpression start) inside
    simp [closing, startsExpression, startsOperand] at kind
  obtain ⟨again, t, read, same, behind⟩ := condition.whole place.inner _ _ rfl _ inside
  obtain ⟨closing, behind⟩ := behind.mark
  obtain ⟨statements', u, readBody, sameBody, after⟩ := body.body allowed more _ behind
  refine ⟨keyword, _, u, .branch opening filled read closing readBody, ?_, after⟩
  simp_all [SameBranch, SameNode, SameNodes, Branch.forget]

theorem head_ne_else {t : Stream} {more : List Word} (behind : t.At more) (noElse : NoElse more) :
    t.head.kind ≠ .keyword .else_ := by
  obtain ⟨rest, place⟩ := t
  cases behind with
  | nil => simp [Stream.head, Token.missingEnd]
  | word kind => simpa [Stream.head, kind] using noElse _ rfl
  | pair operator first => simp [Stream.head, first]

theorem recovers_alternatives {returning : Bool} {branches : List Branch}
    {otherwise : Option (List Node)} (each : ∀ branch ∈ branches, RecoversBranch returning branch)
    (last : RecoversBody returning (otherwise.getD [])) {place : Place}
    (allowed : returning = true → returns place = true) {more : List Word} (noElse : NoElse more)
    {s : Stream} (here : s.At (branches.flatMap (fun branch => .key .else_ :: branch.words) ++
      (otherwiseWords otherwise ++ more))) :
    ∃ again t, Reads (.alternatives place) s again t ∧
      again.1.map (Branch.forget fun _ => 0) = branches.map (Branch.forget fun _ => 0) ∧
      again.2.map (List.map Node.content) = otherwise.map (List.map Node.content) ∧
      t.At more := by
  -- On the branches that are left, each with its `else` in front.
  induction branches generalizing s with
  | nil =>
    cases otherwise with
    | none => exact ⟨([], none), s, .noAlternative (head_ne_else here noElse), rfl, rfl, here⟩
    | some statements =>
      simp only [List.flatMap_nil, List.nil_append, otherwiseWords, List.cons_append] at here
      obtain ⟨keyword, here⟩ := here.key
      have opening : s.tail.head.kind = .symbol .lparen := (Stream.At.mark here).1
      obtain ⟨again, t, read, same, behind⟩ := last.body allowed more _ here
      exact ⟨([], some again), t, .otherwise keyword (by simp [opening]) read, rfl,
        congrArg some same, behind⟩
  | cons branch rest ih =>
    simp only [List.flatMap_cons, List.append_assoc, List.cons_append] at here
    obtain ⟨keyword, here⟩ := here.key
    obtain ⟨again, found, t, read, same, behind⟩ := recovers_branch (each branch (by simp)) allowed
      s.tail.head.span.start _ here
    obtain ⟨others, u, readRest, sameRest, sameLast, after⟩ :=
      ih (fun branch member => each branch (List.mem_cons_of_mem _ member)) behind
    refine ⟨(found :: others.1, others.2), u, .elseIf keyword again read readRest, ?_, sameLast,
      after⟩
    rw [List.map_cons, List.map_cons, same, sameRest]

theorem recovers_choice {returning : Bool} {span : Span} {branches : List Branch}
    {otherwise : Option (List Node)} (filled : branches ≠ [])
    (each : ∀ branch ∈ branches, RecoversBranch returning branch)
    (last : RecoversBody returning (otherwise.getD [])) :
    RecoversChoice returning (.choice span branches otherwise) := by
  intro place more allowed noElse s here
  obtain ⟨branch, rest, rfl⟩ := List.exists_cons_of_ne_nil filled
  rw [Node.words, branchWords_eq, List.map_cons, Word.intercalate_cons, List.flatMap_map,
    List.append_assoc, List.append_assoc] at here
  obtain ⟨keyword, found, t, read, same, behind⟩ := recovers_branch (each branch (by simp)) allowed
    s.head.span.start _ here
  obtain ⟨others, u, readRest, sameRest, sameLast, after⟩ := recovers_alternatives
    (fun branch member => each branch (List.mem_cons_of_mem _ member)) last allowed noElse behind
  refine ⟨_, u, .choice keyword read readRest, ?_, after⟩
  simp_all [SameNode, SameBranch, Node.forget]

end Grammar
end Tide
