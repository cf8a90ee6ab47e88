import Mathlib
import Tide.Session.Basic

/-!
# Lines in groups

A session holds lines back until their brackets are closed. Over any steps that are taken with it,
the lines that it is fed fall into groups: each line belongs to one group, in order, and the text of
a group is its lines joined by line feeds. Every beginning of a group leaves brackets open and the
whole group does not, so the session answers that the text is complete at the last line of a group
and nowhere else, and runs the text of the group once, there. Lines that a reset finds held back are
dropped with it. Text that does not scan or does not parse leaves the machine as it was.

The buffer tells a line that is held back from no line at all only because the empty text leaves no
bracket open.

## Proof strategy

The steps taken so far are cut into blocks, each up to the line that completes a group or to a
reset, and a tail of steps whose lines are held back. One more step either prolongs the tail or
makes a block of it. The run is followed by induction on the steps, from the last one.
-/
namespace Tide.Session

/-! ### Steps -/

inductive Step where
  | feed (line : Bytes)
  | command (line : Bytes)
  | reset

namespace Step

/-- The line that is fed. -/
def line? : Step → Option Bytes
  | .feed line => some line
  | _ => none

/-- The command that is obeyed, if there is one. -/
def command? : Step → Option Command
  | .feed _ => none
  | .command line => Session.command? line
  | .reset => some .reset

/-- The answer to a step, which only a line that is fed gets. -/
def answer? (complete : Bool) (step : Step) : Option Bool := step.line?.map fun _ => complete

end Step

/-- Takes a step and gives the answer to a line that is fed. -/
def take (session : Session) (depth : Nat) : Step → Option Bool × Session
  | .feed line => ((session.feed depth line).1, (session.feed depth line).2)
  | .command line => (none, ((command? line).map session.obey).getD session)
  | .reset => (none, session.reset)

def takeAll (session : Session) (depth : Nat) : List Step → List (Option Bool) × Session
  | [] => ([], session)
  | step :: rest =>
    let (answer, next) := session.take depth step
    let (answers, last) := next.takeAll depth rest
    (answer :: answers, last)

theorem takeAll_concat (session : Session) (depth : Nat) (steps : List Step) (step : Step) :
    session.takeAll depth (steps ++ [step]) =
      ((session.takeAll depth steps).1 ++ [((session.takeAll depth steps).2.take depth step).1],
        ((session.takeAll depth steps).2.take depth step).2) := by
  induction steps generalizing session with
  | nil => rfl
  | cons first rest ih =>
    simp only [List.cons_append, takeAll, ih]

/-! ### Groups of lines -/

def joinLines (lines : List Bytes) : Bytes := Bytes.join (utf8 "\n") lines

/-- Every beginning, of at least one line, leaves brackets open. -/
def Incomplete (lines : List Bytes) : Prop :=
  ∀ k, 0 < k → k ≤ lines.length → 0 < bracketDepth (joinLines (lines.take k))

theorem joinLines_concat {lines : List Bytes} (nonempty : lines ≠ []) (line : Bytes) :
    joinLines (lines ++ [line]) = joinLines lines ++ utf8 "\n" ++ line := by
  induction lines with
  | nil => exact absurd rfl nonempty
  | cons first rest ih =>
    cases rest with
    | nil => simp [joinLines, Bytes.join, List.intercalate]
    | cons second others =>
      have shorter := ih (by simp)
      simp only [joinLines, Bytes.join, List.intercalate, List.cons_append,
        List.intersperse_cons_cons, List.flatten_cons] at shorter ⊢
      rw [shorter]
      simp only [List.append_assoc]

namespace Incomplete

variable {lines : List Bytes}

theorem depth_pos (incomplete : Incomplete lines) (nonempty : lines ≠ []) :
    0 < bracketDepth (joinLines lines) := by
  have whole := incomplete lines.length (List.length_pos_iff.mpr nonempty) le_rfl
  rwa [List.take_length] at whole

/-- Lines are held back exactly when their text is not empty: the empty text leaves no bracket
open. -/
theorem joinLines_eq_nil_iff (incomplete : Incomplete lines) :
    joinLines lines = [] ↔ lines = [] := by
  constructor
  · intro empty
    by_contra nonempty
    have open_ := incomplete.depth_pos nonempty
    rw [empty] at open_
    exact absurd open_ (by decide)
  · rintro rfl
    rfl

theorem concat (incomplete : Incomplete lines) {line : Bytes}
    (open_ : 0 < bracketDepth (joinLines (lines ++ [line]))) : Incomplete (lines ++ [line]) := by
  intro k positive bounded
  rw [List.length_append, List.length_singleton] at bounded
  -- A beginning that does not reach the new line was checked before.
  rcases Nat.lt_or_ge lines.length k with beyond | inside
  · have whole : (lines ++ [line]).take k = lines ++ [line] :=
      List.take_of_length_le (by rw [List.length_append, List.length_singleton]; exact beyond)
    rwa [whole]
  · rw [List.take_append_of_le_length inside]
    exact incomplete k positive inside

/-- What a session checks when it gets one more line. -/
theorem joined_eq (incomplete : Incomplete lines) {session : Session}
    (held : session.pending = joinLines lines) (line : Bytes) :
    session.joined line = joinLines (lines ++ [line]) := by
  unfold joined
  rw [held]
  split
  next empty =>
    -- An empty buffer is one that holds no line.
    obtain rfl := incomplete.joinLines_eq_nil_iff.mp empty
    simp [joinLines, Bytes.join, List.intercalate]
  next nonempty =>
    exact (joinLines_concat (mt incomplete.joinLines_eq_nil_iff.mpr nonempty) line).symm

end Incomplete

/-! ### Blocks of steps -/

/-- The lines that are fed in some steps. -/
def linesOf (steps : List Step) : List Bytes := steps.filterMap Step.line?

def commandsOf (steps : List Step) : List Command := steps.filterMap Step.command?

theorem commandsOf_concat (steps : List Step) (step : Step) :
    commandsOf (steps ++ [step]) = commandsOf steps ++ step.command?.toList := by
  cases obeyed : step.command? <;> simp [commandsOf, obeyed]

/-- Steps behind which all their lines are held back. -/
structure Waiting (steps : List Step) : Prop where
  incomplete : Incomplete (linesOf steps)
  noReset : .reset ∉ commandsOf steps

/-- Steps up to the one that leaves nothing held back. -/
structure Block where
  waiting : List Step
  last : Step

namespace Block

def steps (block : Block) : List Step := block.waiting ++ [block.last]

/-- All lines but the last are held back; the last step completes the group, or it is a reset. -/
def Ends (block : Block) : Prop :=
  Waiting block.waiting ∧
    match block.last with
    | .feed line => bracketDepth (joinLines (linesOf block.waiting ++ [line])) ≤ 0
    | step => step.command? = some .reset

/-- The answers to the steps of a block: it is only complete with its last line. -/
def answers (block : Block) : List (Option Bool) :=
  block.waiting.map (Step.answer? false) ++ [block.last.answer? true]

end Block

/-- Runs a text, unless it is blank. -/
def runText (session : Session) (depth : Nat) (source : Bytes) : Session :=
  if isBlankText source then session else session.evaluate depth source

/-- What a block does to a session: its commands are obeyed, and the text of its group is run if it
has one. -/
def perform (depth : Nat) (session : Session) (block : Block) : Session :=
  let session := (commandsOf block.waiting).foldl obey session
  match block.last with
  | .feed line => session.runText depth (joinLines (linesOf block.waiting ++ [line]))
  | _ => session

/-! ### What leaves the buffer alone -/

variable {session : Session}

theorem pending_evaluate (session : Session) (depth : Nat) (source : Bytes) :
    (session.evaluate depth source).pending = session.pending := by
  unfold evaluate
  simp only
  split
  next => rfl
  next =>
    split
    next =>
      simp only [echo]
      split <;> rfl
    next => rfl

theorem pending_runText (session : Session) (depth : Nat) (source : Bytes) :
    (session.runText depth source).pending = session.pending := by
  unfold runText
  split
  · rfl
  · exact pending_evaluate ..

theorem pending_obey (nothing : session.pending = []) (command : Command) :
    (session.obey command).pending = [] := by
  cases command with
  | quit => exact nothing
  | environment => exact nothing
  | reset => rfl

theorem pending_obeyAll (nothing : session.pending = []) (commands : List Command) :
    (commands.foldl obey session).pending = [] := by
  induction commands generalizing session with
  | nil => exact nothing
  | cons command rest ih => exact ih (pending_obey nothing command)

theorem pending_perform (nothing : session.pending = []) (depth : Nat) (block : Block) :
    (perform depth session block).pending = [] := by
  have obeyed := pending_obeyAll nothing (commandsOf block.waiting)
  unfold perform
  simp only
  split
  · rw [pending_runText]
    exact obeyed
  · exact obeyed

theorem pending_performAll (nothing : session.pending = []) (depth : Nat) (blocks : List Block) :
    (blocks.foldl (perform depth) session).pending = [] := by
  induction blocks generalizing session with
  | nil => exact nothing
  | cons block rest ih => exact ih (pending_perform nothing depth block)

/-- A command other than a reset does not look at the lines that are held back. -/
theorem obey_pending (session : Session) {command : Command} (other : command ≠ .reset)
    (pending : Bytes) :
    { session with pending }.obey command = { session.obey command with pending } := by
  cases command with
  | quit => rfl
  | environment => rfl
  | reset => exact absurd rfl other

/-- The steps so far, cut into blocks and a tail, with the answers and the session they lead to. -/
structure Cut (start : Session) (depth : Nat) (steps : List Step) (blocks : List Block)
    (tail : List Step) : Prop where
  whole : steps = blocks.flatMap Block.steps ++ tail
  ends : ∀ block ∈ blocks, block.Ends
  waiting : Waiting tail
  answers : (start.takeAll depth steps).1 =
    blocks.flatMap Block.answers ++ tail.map (Step.answer? false)
  session : (start.takeAll depth steps).2 =
    { (commandsOf tail).foldl obey (blocks.foldl (perform depth) start) with
      pending := joinLines (linesOf tail) }

theorem Waiting.nil : Waiting [] where
  incomplete _ positive bounded := absurd (positive.trans_le bounded) (lt_irrefl 0)
  noReset := nofun

namespace Cut

variable {start : Session} {depth : Nat} {steps tail : List Step} {blocks : List Block}

theorem nil (nothing : start.pending = []) : Cut start depth [] [] [] where
  whole := rfl
  ends := nofun
  waiting := .nil
  answers := rfl
  session := by
    change start = { start with pending := [] }
    rw [← nothing]

variable (cut : Cut start depth steps blocks tail) {step : Step}

include cut

/-- The step belongs to the tail. -/
theorem wait (waiting : Waiting (tail ++ [step]))
    (answer : ((start.takeAll depth steps).2.take depth step).1 = step.answer? false)
    (session : ((start.takeAll depth steps).2.take depth step).2 =
      { (commandsOf (tail ++ [step])).foldl obey (blocks.foldl (perform depth) start) with
        pending := joinLines (linesOf (tail ++ [step])) }) :
    Cut start depth (steps ++ [step]) blocks (tail ++ [step]) where
  whole := by rw [cut.whole, List.append_assoc]
  ends := cut.ends
  waiting := waiting
  answers := by
    rw [takeAll_concat, cut.answers, answer, List.map_append, List.append_assoc]
    rfl
  session := by
    rw [takeAll_concat]
    exact session

/-- The step makes a block of the tail. -/
theorem close (ends : Block.Ends ⟨tail, step⟩)
    (answer : ((start.takeAll depth steps).2.take depth step).1 = step.answer? true)
    (nothing : start.pending = [])
    (session : ((start.takeAll depth steps).2.take depth step).2 =
      perform depth (blocks.foldl (perform depth) start) ⟨tail, step⟩) :
    Cut start depth (steps ++ [step]) (blocks ++ [⟨tail, step⟩]) [] where
  whole := by
    rw [cut.whole, List.flatMap_append, List.append_assoc]
    simp [Block.steps]
  ends := by
    intro block member
    rcases List.mem_append.mp member with member | member
    · exact cut.ends block member
    · rw [List.mem_singleton.mp member]
      exact ends
  waiting := .nil
  answers := by
    rw [takeAll_concat, cut.answers, answer, List.flatMap_append]
    simp [Block.answers]
  session := by
    -- A block leaves the buffer empty, as the empty tail behind it asks.
    have emptied := pending_perform (pending_performAll nothing depth blocks) depth ⟨tail, step⟩
    rw [takeAll_concat, List.foldl_append]
    change _ =
      { perform depth (blocks.foldl (perform depth) start) ⟨tail, step⟩ with pending := [] }
    rw [← emptied]
    exact session

theorem pending : (start.takeAll depth steps).2.pending = joinLines (linesOf tail) := by
  rw [cut.session]

theorem joined (line : Bytes) :
    (start.takeAll depth steps).2.joined line = joinLines (linesOf tail ++ [line]) :=
  cut.waiting.incomplete.joined_eq cut.pending line

/-- A line either is held back with the others or completes the group. -/
theorem feed (nothing : start.pending = []) (line : Bytes) :
    ∃ blocks tail, Cut start depth (steps ++ [.feed line]) blocks tail := by
  have lines : linesOf (tail ++ [.feed line]) = linesOf tail ++ [line] := by
    simp [linesOf, Step.line?]
  have commands : commandsOf (tail ++ [.feed line]) = commandsOf tail := by
    simp [commandsOf_concat, Step.command?]
  have checked := cut.joined line
  by_cases open_ : 0 < bracketDepth (joinLines (linesOf tail ++ [line]))
  · -- Brackets are open still, and the line is held back with the others.
    have fed : (start.takeAll depth steps).2.feed depth line =
        (false, { (start.takeAll depth steps).2 with
          pending := joinLines (linesOf tail ++ [line]) }) := by
      simp only [Session.feed, checked]
      rw [if_pos open_]
    refine ⟨blocks, tail ++ [.feed line], cut.wait ⟨?_, ?_⟩ ?_ ?_⟩
    · rw [lines]
      exact cut.waiting.incomplete.concat open_
    · rw [commands]
      exact cut.waiting.noReset
    · simp [take, fed, Step.answer?, Step.line?]
    · rw [lines, commands]
      simp only [take, fed]
      rw [cut.session]
  · -- The commands of the tail leave the buffer alone, so the blocks and they give the session in
    -- which the text is run.
    have performed := pending_obeyAll (pending_performAll nothing depth blocks) (commandsOf tail)
    have emptied : { (start.takeAll depth steps).2 with pending := [] } =
        (commandsOf tail).foldl obey (blocks.foldl (perform depth) start) := by
      rw [cut.session]
      simp only
      rw [← performed]
    have fed : (start.takeAll depth steps).2.feed depth line =
        (true, perform depth (blocks.foldl (perform depth) start) ⟨tail, .feed line⟩) := by
      simp only [Session.feed, checked]
      rw [if_neg open_, emptied]
      rfl
    refine ⟨_, [], cut.close ⟨cut.waiting, not_lt.mp open_⟩ ?_ nothing ?_⟩
    · simp [take, fed, Step.answer?, Step.line?]
    · simp [take, fed]

/-- A step that feeds no line: a reset closes a block, and other commands change nothing about the
lines. -/
theorem command (nothing : start.pending = []) (silent : step.line? = none)
    (taken : ∀ session : Session, session.take depth step =
      (none, (step.command?.map session.obey).getD session)) :
    ∃ blocks tail, Cut start depth (steps ++ [step]) blocks tail := by
  have lines : linesOf (tail ++ [step]) = linesOf tail := by simp [linesOf, silent]
  by_cases reset : step.command? = some .reset
  · refine ⟨_, [], cut.close ⟨cut.waiting, ?_⟩ ?_ nothing ?_⟩
    · cases step with
      | feed line => cases silent
      | command line => exact reset
      | reset => exact reset
    · simp [taken, Step.answer?, silent]
    · -- A reset drops the lines of the tail and changes nothing else.
      rw [taken, reset]
      have performed := pending_obeyAll (pending_performAll nothing depth blocks) (commandsOf tail)
      have emptied : (start.takeAll depth steps).2.reset =
          (commandsOf tail).foldl obey (blocks.foldl (perform depth) start) := by
        rw [cut.session]
        simp only [Session.reset]
        rw [← performed]
      cases step with
      | feed line => cases silent
      | command line => exact emptied
      | reset => exact emptied
  · refine ⟨blocks, tail ++ [step], cut.wait ⟨?_, ?_⟩ ?_ ?_⟩
    · rw [lines]
      exact cut.waiting.incomplete
    · intro member
      rw [commandsOf_concat, List.mem_append, Option.mem_toList] at member
      rcases member with member | member
      · exact cut.waiting.noReset member
      · exact reset member
    · simp [taken, Step.answer?, silent]
    · rw [taken, lines, cut.session, commandsOf_concat, List.foldl_append]
      cases obeyed : step.command? with
      | none => rfl
      | some command => exact obey_pending _ (fun same => reset (same ▸ obeyed)) _

end Cut

end Tide.Session
