import Mathlib
import Tide.Proofs.Session.Buffering
import Tide.Proofs.Token.Brackets

/-!
# Text that is still open

A session waits for more text as long as the count of open brackets is positive. Two things about a
text bear on that although they are no brackets.

A comment that is never closed counts as one bracket more. The scanner fails at such a comment, and
the count sees the same one: it is that of the tokens in front of the comment and one more. So the
session waits for the end of the comment only if these tokens close no more brackets than they open;
a bracket too many in front makes up for the comment.

The line `:reset` is only understood while nothing is held back. On any other occasion it is one
more line of the text. It has no brackets, quotes or comment marks, so the text is as open as it was
before, whatever state the text ends in, and the session goes on waiting.
-/
namespace Tide

/-! ### Comments that are never closed -/

namespace Bracket

open Scan

/-- The comment in which skipping ends is the one that the count ends in. -/
theorem openFrom_openComment {opened : Option Position} {p : Position} {bytes : Bytes} {span : Span}
    (cut : skipTrivia opened p bytes = .error span) : openFrom (inside opened) bytes = 1 := by
  -- The two go through the same bytes, so the cases of one are enough for both.
  fun_induction skipTrivia opened p bytes with
  | case1 => simp at cut
  | case2 => rfl
  | case3 p b space ih =>
    rw [inside, openFrom_space space]
    exact ih cut
  | case4 => simp at cut
  | case5 opened p b ih =>
    simp only [inside, openFrom]
  | case6 p b c rest space ih =>
    rw [inside, openFrom_space space]
    exact ih cut
  | case7 p b c rest noSpace pair ih =>
    obtain ⟨rfl, rfl⟩ := pair
    exact ih cut
  | case8 => simp at cut
  | case9 opened p b c rest pair ih =>
    obtain ⟨rfl, rfl⟩ := pair
    exact ih cut
  | case10 opened p b c rest noPair ih =>
    simp only [inside, openFrom, noPair, if_false]
    exact ih cut

/-- Where nothing is left to skip, the scanner fails for other reasons. -/
theorem code_of_readToken {cursor : Cursor} {fault : Diagnostic} {warnings : List Diagnostic}
    (read : readToken cursor = .failed fault warnings) : fault.code ≠ "E1003" := by
  obtain ⟨p, bytes⟩ := cursor
  cases bytes with
  | nil => simp [readToken] at read
  | cons b rest =>
    simp only [readToken] at read
    -- The tests of the scanner, in its order. Only a string and a byte that nothing begins with can
    -- fail.
    split at read
    · simp only [readQuoted] at read
      split at read
      next => simp at read
      next =>
        obtain ⟨rfl, -⟩ := read
        change "E1002" ≠ "E1003"
        decide
    split at read
    · simp [readNumber] at read
    split at read
    · simp [readWord] at read
    split at read
    · simp at read
    · obtain ⟨rfl, -⟩ := read
      change "E1001" ≠ "E1003"
      decide

/-- The count of a text that ends in a comment: the tokens in front of it, and one more. -/
theorem openFrom_run_openComment {cursor : Cursor} {fault : Diagnostic}
    (fails : (run cursor).fault = some fault) (comment : fault.code = "E1003") :
    openFrom .code cursor.rest = openBrackets (run cursor).tokens + 1 := by
  induction cursor using run.induct with
  | case1 cursor last read => simp [run_finished read] at fails
  | case2 cursor fault' warnings read =>
    rw [run_failed read] at fails ⊢
    obtain rfl := Option.some.inj fails
    unfold next at read
    split at read
    next cut => exact openFrom_openComment cut
    next => exact absurd comment (code_of_readToken read)
  | case3 cursor t warnings c read ih =>
    -- The token counts for what it opens or closes, and the rest of the text as before.
    rw [run_token read] at fails ⊢
    rw [openBrackets_cons, openFrom_next read, ih fails, Int.add_assoc]

end Bracket

namespace Session

/-- A line is held back when the text with it leaves brackets open. -/
theorem feed_waits_iff {session : Session} {depth : Nat} {line : Bytes} :
    session.feed depth line = (false, { session with pending := session.joined line }) ↔
      0 < bracketDepth (session.joined line) := by
  simp only [feed]
  split
  next open_ => exact iff_of_true rfl open_
  next closed => exact iff_of_false (by simp) closed

/-- A text that does not scan because of a comment that is never closed counts for one bracket more
than the tokens in front of the comment. So it is held back exactly when these tokens close no more
brackets than they open. -/
theorem openComment_waits_iff {source : Bytes} {fault : Diagnostic}
    (fails : (scan source).fault = some fault) (comment : fault.code = "E1003") :
    bracketDepth source = openBrackets (scan source).tokens + 1 ∧
      (0 < bracketDepth source ↔
        ((scan source).tokens.countP fun t => t.kind.isClosing) ≤
          (scan source).tokens.countP fun t => t.kind.isOpening) ∧
      ∀ (session : Session) (depth : Nat) (line : Bytes), session.joined line = source →
        (session.feed depth line = (false, { session with pending := source }) ↔
          ((scan source).tokens.countP fun t => t.kind.isClosing) ≤
            (scan source).tokens.countP fun t => t.kind.isOpening) := by
  have counted : bracketDepth source = openBrackets (scan source).tokens + 1 :=
    Bracket.openFrom_run_openComment fails comment
  have waits : 0 < bracketDepth source ↔
      ((scan source).tokens.countP fun t => t.kind.isClosing) ≤
        (scan source).tokens.countP fun t => t.kind.isOpening := by
    rw [counted, openBrackets]
    omega
  refine ⟨counted, waits, fun session depth line joined => ?_⟩
  subst joined
  exact feed_waits_iff.trans waits

/-- A comment behind two open brackets, with a closing one inside the comment. -/
theorem openComment_insideArray :
    (∃ fault, (scan (utf8 "f([ /* ]")).fault = some fault ∧ fault.code = "E1003") ∧
      (start false).feed 9 (utf8 "f([ /* ]") =
        (false, { start false with pending := utf8 "f([ /* ]" }) := by
  obtain ⟨fault, fails, comment⟩ :
      ∃ fault, (scan (utf8 "f([ /* ]")).fault = some fault ∧ fault.code = "E1003" :=
    ⟨_, by cbv, by cbv⟩
  obtain ⟨-, -, fed⟩ := openComment_waits_iff fails comment
  exact ⟨⟨fault, fails, comment⟩, (fed (start false) 9 _ rfl).mpr (by decide +kernel)⟩

/-- A comment is not waited for when a bracket too many was closed in front of it. -/
theorem openComment_submitted :
    (∃ fault, (scan (utf8 ")/*")).fault = some fault ∧ fault.code = "E1003") ∧
      ¬ 0 < bracketDepth (utf8 ")/*") ∧ ((start false).feed 9 (utf8 ")/*")).1 = true :=
  ⟨⟨_, by cbv, by cbv⟩, by decide +kernel, by cbv⟩

end Session

/-! ### A line without marks -/

namespace Bracket

/-- Bytes that mean nothing to the count, in code and in strings and comments. -/
def Plain (run : Bytes) : Prop := ∀ b ∈ run, b ∉ marks ∧ b ≠ '*'.toUInt8 ∧ b ≠ '\\'.toUInt8

theorem Plain.tail {b : UInt8} {run : Bytes} (plain : Plain (b :: run)) : Plain run :=
  fun c member => plain c (List.mem_cons_of_mem b member)

/-- Strings are only ever opened by quotes. -/
def Inside.Proper : Inside → Prop
  | .string quote => isQuote quote = true
  | _ => True

theorem openFrom_plain {run : Bytes} (plain : Plain run) {state : Inside} (proper : state.Proper) :
    openFrom state run = openFrom state [] := by
  cases state with
  | code =>
    have unmarked := openFrom_unmarked (fun b member => (plain b member).1) []
    rwa [List.append_nil] at unmarked
  | string quote =>
    induction run with
    | nil => rfl
    | cons b run ih =>
      obtain ⟨unmarked, -, noEscape⟩ := plain b (by simp)
      have noClose : b ≠ quote := by
        rintro rfl
        exact unmarked (mem_marks_of_isQuote proper)
      rw [openFrom_string noEscape noClose, ih plain.tail]
  -- In a comment the counter looks at two bytes at once, but a plain byte is no star.
  | comment =>
    induction run with
    | nil => rfl
    | cons b run ih =>
      obtain ⟨-, noStar, -⟩ := plain b (by simp)
      cases run with
      | nil => rfl
      | cons c rest =>
        simp only [openFrom, noStar, false_and, if_false]
        exact ih plain.tail

/-- Plain bytes behind a text leave its count as it is, in whatever state the text ends. -/
theorem openFrom_append_plain {run : Bytes} (plain : Plain run) {state : Inside} {bytes : Bytes}
    (proper : state.Proper) : openFrom state (bytes ++ run) = openFrom state bytes := by
  fun_induction openFrom state bytes with
  | case1 => exact openFrom_plain plain proper
  | case2 state other =>
    rw [List.nil_append, openFrom_plain plain proper]
    cases state with
    | comment => exact absurd rfl other
    | _ => rfl
  | case3 b rest quote ih =>
    rw [List.cons_append, openFrom_quote quote]
    exact ih quote
  -- The last byte of the text may begin a comment, but what follows does not go on with it.
  | case4 b noQuote =>
    have noComment : ¬ OpensComment (b :: run) := by
      rintro ⟨later, same⟩
      obtain ⟨-, rfl⟩ := List.cons.inj same
      exact (plain _ (by simp)).2.1 rfl
    rw [List.singleton_append, openFrom_code (Bool.eq_false_iff.mpr noQuote) noComment,
      openFrom_plain plain proper, openFrom, Int.add_zero]
    simp
  | case5 b noQuote c later pair ih =>
    obtain ⟨rfl, rfl⟩ := pair
    exact ih trivial
  | case6 b noQuote c later noPair ih =>
    have noComment : ¬ OpensComment (b :: (c :: later ++ run)) := by
      rintro ⟨rest, same⟩
      simp only [List.cons_append, List.cons.injEq] at same
      exact noPair ⟨same.1, same.2.1⟩
    rw [List.cons_append, openFrom_code (Bool.eq_false_iff.mpr noQuote) noComment, ih proper]
  -- A backslash at the end of the text takes one byte of what follows with it.
  | case7 quote =>
    cases run with
    | nil => rfl
    | cons c rest =>
      simp only [List.singleton_append, openFrom, if_true]
      exact openFrom_plain plain.tail proper
  | case8 quote c later ih =>
    simp only [List.cons_append, openFrom, if_true]
    exact ih proper
  | case9 quote rest noEscape ih =>
    rw [List.cons_append, openFrom.eq_def]
    simp only [noEscape, if_true, if_false]
    exact ih trivial
  | case10 quote b rest noEscape noClose ih =>
    rw [List.cons_append, openFrom_string noEscape noClose]
    exact ih proper
  -- A star at the end of the text may begin the end of a comment, but what follows does not.
  | case11 b ih =>
    cases run with
    | nil => rfl
    | cons c rest =>
      have noPair : ¬ (b = '*'.toUInt8 ∧ c = '/'.toUInt8) := by
        rintro ⟨-, rfl⟩
        exact (plain '/'.toUInt8 (by simp)).1 (by decide)
      simp only [List.singleton_append, openFrom, noPair, if_false]
      exact openFrom_plain plain trivial
  | case12 b c later pair ih =>
    obtain ⟨rfl, rfl⟩ := pair
    exact ih trivial
  | case13 b c later noPair ih =>
    simp only [List.cons_append, openFrom, noPair, if_false]
    exact ih proper

end Bracket

/-! ### The line that resets -/

namespace Session

/-- A session after some lines of input. -/
def afterLines (session : Session) (depth : Nat) (lines : List Bytes) : Session :=
  lines.foldl (fun session text => (session.line depth text).2) session

/-- The line that resets. -/
def resetLine : Bytes := utf8 ":reset"

/-- Nothing is held back that does not leave brackets open. -/
def Holding (session : Session) : Prop :=
  session.pending = [] ∨ 0 < bracketDepth session.pending

theorem pending_ne_nil {session : Session} (open_ : 0 < bracketDepth session.pending) :
    session.pending ≠ [] := by
  intro nothing
  rw [nothing] at open_
  exact absurd open_ (by decide)

theorem holding_feed (session : Session) (depth : Nat) (line : Bytes) :
    (session.feed depth line).2.Holding := by
  simp only [Session.feed]
  split
  next open_ => exact .inr open_
  next closed =>
    left
    exact pending_runText { session with pending := [] } depth (session.joined line)

theorem holding_line (session : Session) (depth : Nat) (text : Bytes) :
    (session.line depth text).2.Holding := by
  simp only [Session.line]
  split
  next command found =>
    -- Commands are only tried while nothing is held back.
    have nothing : session.pending = [] := by
      by_contra held
      simp [held] at found
    exact .inl (pending_obey nothing command)
  next => exact holding_feed session depth text

theorem Holding.afterLines {session : Session} (holding : session.Holding) (depth : Nat)
    (lines : List Bytes) : (session.afterLines depth lines).Holding := by
  induction lines generalizing session with
  | nil => exact holding
  | cons text rest ih => exact ih (holding_line session depth text)

/-- With nothing held back the line is a command that has nothing to do. -/
theorem line_reset_of_nothing {session : Session} (nothing : session.pending = [])
    (depth : Nat) : session.line depth resetLine = (.obeyed .reset, session) := by
  have command : command? resetLine = some .reset := by decide +kernel
  have same : session.reset = session := by
    rw [reset, ← nothing]
  simp only [line, nothing, if_true, command, obey, same]

/-- With anything held back the line is held back with it. -/
theorem line_reset_of_held {session : Session} (open_ : 0 < bracketDepth session.pending)
    (depth : Nat) : session.line depth resetLine =
      (.fed false, { session with pending := session.pending ++ (utf8 "\n" ++ resetLine) }) := by
  have held := pending_ne_nil open_
  have plain : Bracket.Plain (utf8 "\n" ++ resetLine) := by
    unfold Bracket.Plain
    decide +kernel
  have joined : session.joined resetLine = session.pending ++ (utf8 "\n" ++ resetLine) := by
    rw [Session.joined, if_neg held, List.append_assoc]
  -- Whether the text ends in code, in a string or in a comment, the line adds no bracket to it.
  have still : bracketDepth (session.joined resetLine) = bracketDepth session.pending := by
    rw [joined]
    exact Bracket.openFrom_append_plain plain trivial
  have fed : session.feed depth resetLine =
      (false, { session with pending := session.joined resetLine }) :=
    feed_waits_iff.mpr (still ▸ open_)
  simp only [line, held, if_false, fed, joined]

/-- Entering the line `:reset` runs nothing and changes neither the scopes nor the outputs, whatever
lines were entered before. But it leaves nothing held back only if nothing was held back before;
otherwise it becomes one more line of the text that is held back. -/
theorem reset_empties_iff (color : Bool) (depth : Nat) (lines : List Bytes) :
    let session := (start color).afterLines depth lines
    let entered := session.line depth resetLine
    entered.2.machine = session.machine ∧ entered.2.errors = session.errors ∧
      (entered.2.pending = [] ↔ session.pending = []) ∧
      (session.pending ≠ [] → entered =
        (.fed false, { session with pending := session.pending ++ (utf8 "\n" ++ resetLine) })) := by
  intro session entered
  have holding : session.Holding := Holding.afterLines (.inl rfl) depth lines
  rcases holding with nothing | open_
  · have obeyed : entered = (.obeyed .reset, session) := line_reset_of_nothing nothing depth
    rw [obeyed]
    exact ⟨rfl, rfl, Iff.rfl, fun held => absurd nothing held⟩
  · have fed : entered =
        (.fed false, { session with pending := session.pending ++ (utf8 "\n" ++ resetLine) }) :=
      line_reset_of_held open_ depth
    have held := pending_ne_nil open_
    rw [fed]
    refine ⟨rfl, rfl, ?_, fun _ => rfl⟩
    simp [held]

theorem reset_keeps_openString :
    ((start false).afterLines 9 [utf8 "f('a"]).pending = utf8 "f('a" ∧
      (((start false).afterLines 9 [utf8 "f('a"]).line 9 resetLine).2.pending =
        utf8 "f('a\n:reset" := by
  have pending : ((start false).afterLines 9 [utf8 "f('a"]).pending = utf8 "f('a" := by cbv
  have held : ((start false).afterLines 9 [utf8 "f('a"]).pending ≠ [] := by
    rw [pending]
    decide
  obtain ⟨-, -, -, fed⟩ := reset_empties_iff false 9 [utf8 "f('a"]
  refine ⟨pending, ?_⟩
  rw [fed held]
  change ((start false).afterLines 9 [utf8 "f('a"]).pending ++ _ = _
  rw [pending]
  decide

/-- An open parenthesis is still held back after the line that should drop it. -/
theorem reset_keeps_parenthesis :
    (((start false).afterLines 9 [utf8 "("]).line 9 (utf8 ":reset")).1 = .fed false ∧
      (((start false).afterLines 9 [utf8 "("]).line 9 (utf8 ":reset")).2.pending =
        utf8 "(\n:reset" := by
  constructor <;> cbv

end Session
end Tide
