import Mathlib
import Tide.Proofs.Eval.Places
import Tide.Proofs.Grammar.Concatenation

/-!
# Running pieces and running the whole

Sources run one after another on one machine, up to the first that fails, do what their
concatenation does as a single program: the same output, the same global names with the same values,
the same last value or the same failure.

## Proof strategy

Both runs are compared with a third one, that of all statements without their places. A program is
its statements in order, so the third run can be cut where the pieces are cut.
-/
namespace Tide

open Grammar

/-! ### Runs -/

/-- The run came to an end by itself. -/
def Outcome.Finished : Outcome → Prop
  | .failed .exhausted => False
  | _ => True

/-- Runs sources in order on from what came before, as long as each gives a value. -/
def Machine.runFrom (depth : Nat) : Outcome × Machine → List Bytes → Outcome × Machine
  | (.value _, machine), source :: rest => runFrom depth (machine.run depth source) rest
  | state, _ => state

/-- Runs sources in order, up to and including the first that fails. -/
def Machine.runPieces (machine : Machine) (depth : Nat) (sources : List Bytes) :
    Outcome × Machine :=
  runFrom depth (.value .null, machine) sources

/-- What a user sees of two runs is the same. Failures may differ in their span, and whether the
last values are the same is left open unless they are to be shown. -/
structure SameRun (shown : Prop) (left right : Outcome × Machine) : Prop where
  output : left.2.output = right.2.output
  globals : left.2.globals = right.2.globals
  outcome : match left.1, right.1 with
    | .value a, .value b => shown → a.render = b.render
    | .failed e, .failed f => e.forget = f.forget ∧ e.text = f.text
    | _, _ => False

/-! ### The run without places -/

/-- The third run shows a first one. The value is known to be the same only if it is to be known,
and a loose comparison excuses a first run that met its bound. -/
inductive Shows (loose known : Prop) :
    Outcome × Machine → EStateM.Result Failure Machine Value → Prop where
  | value {a b : Value} {m : Machine} (same : known → b = a.forget id) :
      Shows loose known (.value a, m) (.ok b (m.forget id))
  | failed {e : Failure} {m : Machine} :
      Shows loose known (.failed e, m) (.error e.forget (m.forget id))
  | excused {m : Machine} {result : EStateM.Result Failure Machine Value} (excused : loose) :
      Shows loose known (.failed .exhausted, m) result

theorem shows_settle {loose : Prop} {x y : EStateM.Result Failure Machine Value}
    (agree : (Eval.placeless id loose).Agree (fun a b => b = a.forget id) x y) :
    Shows loose True (Machine.settle x) y := by
  obtain ⟨a, m, b, n, rfl, rfl, rfl, rfl⟩ | ⟨e, m, f, n, rfl, rfl, rfl, rfl⟩ |
    ⟨e, m, rfl, excused, rfl⟩ := agree.cases
  · exact .value fun _ => rfl
  · exact .failed
  · exact .excused excused

theorem Shows.mono {loose known known' : Prop} {run : Outcome × Machine}
    {result : EStateM.Result Failure Machine Value} (shown : Shows loose known run result)
    (weaker : known' → known) : Shows loose known' run result := by
  cases shown with
  | value same => exact .value (same ∘ weaker)
  | failed => exact .failed
  | excused excused => exact .excused excused

/-- Two finished runs that the same run shows are the same to a user. -/
theorem Shows.sameRun {loose shown : Prop} {left right : Outcome × Machine}
    {result : EStateM.Result Failure Machine Value} (first : Shows loose shown left result)
    (second : Shows loose True right result) (finished : left.1.Finished)
    (finished' : right.1.Finished) : SameRun shown left right := by
  have globals {m n : Machine} (same : m.forget id = n.forget id) : m.globals = n.globals := by
    rw [← m.globals_forget id, ← n.globals_forget id, same]
  have output {m n : Machine} (same : m.forget id = n.forget id) : m.output = n.output := by
    have outputs := congrArg Machine.output same
    exact outputs
  -- A finished run is never excused. So the third run gives a value where one of the two does, and
  -- then the other one does as well; and so with failures.
  cases first with
  | @value a b m same =>
    generalize kept : m.forget id = n at second
    cases second with
    | @value a' _ m' same' =>
      refine ⟨output kept, globals kept, fun wanted => ?_⟩
      rw [← a.render_forget id, ← a'.render_forget id, ← same wanted, ← same' trivial]
    | excused => exact finished'.elim
  | @failed e m =>
    generalize kept : m.forget id = n at second
    generalize shown : e.forget = f at second
    cases second with
    | @failed e' m' =>
      refine ⟨output kept, globals kept, shown, ?_⟩
      rw [← e.text_forget, shown, e'.text_forget]
    | excused => exact finished'.elim
  | excused => exact finished.elim

/-- In a comparison that is not loose, both runs finish or neither does. -/
theorem Shows.finished_iff {known known' : Prop} {left right : Outcome × Machine}
    {result : EStateM.Result Failure Machine Value} (first : Shows False known left result)
    (second : Shows False known' right result) : left.1.Finished ↔ right.1.Finished := by
  cases first with
  | value same =>
    generalize Machine.forget id _ = n at second
    cases second with
    | value => exact Iff.rfl
    | excused excused => exact excused.elim
  -- The third run fails for the reason of the first one, up to its place, and met no bound unless
  -- the first one did.
  | @failed e m =>
    generalize kept : m.forget id = n at second
    generalize shown : e.forget = f at second
    cases second with
    | @failed e' m' => cases e <;> cases e' <;> cases shown <;> exact Iff.rfl
    | excused excused => exact excused.elim
  | excused excused => exact excused.elim

/-! ### Programs piece by piece -/

theorem program_append (ev : Node → ScopeId → Eval Value) (s : ScopeId) (result : Value)
    (first second : List Node) :
    Eval.program ev s result (first ++ second) =
      (Eval.program ev s result first >>= fun value => Eval.program ev s value second) := by
  induction first generalizing result with
  | nil => rw [List.nil_append, Eval.program, pure_bind]
  | cons node rest ih =>
    simp only [List.cons_append, Eval.program, bind_assoc]
    congr 1
    funext value
    cases value with
    | returned identity value => rfl
    | _ => exact ih _

theorem run_parsed {machine : Machine} {depth : Nat} {source : Bytes} {body : List Node}
    (parsed : ParsesTo source body) :
    machine.run (depth + 1) source =
      Machine.settle (Eval.program (eval depth) Store.globalScope .null body machine) := by
  obtain ⟨span, parsed⟩ := parsed
  exact Machine.run_eq_settle parsed

theorem run_zero {machine : Machine} {source : Bytes} {body : List Node}
    (parsed : ParsesTo source body) : machine.run 0 source = (.failed .exhausted, machine) := by
  obtain ⟨span, parsed⟩ := parsed
  exact Machine.run_eq_settle parsed

/-- One program and the same statements without their places, on from any result. -/
theorem shows_program {loose : Prop} {depth depth' : Nat}
    (deeper : Eval.Reaches loose depth depth') (machine : Machine) (body : List Node)
    (result : Value) :
    Shows loose (body ≠ [])
      (Machine.settle (Eval.program (eval depth) Store.globalScope .null body machine))
      (Eval.program (eval depth') Store.globalScope result (body.map Node.unplaced)
        (machine.forget id)) := by
  cases body with
  | nil => exact .value fun empty => absurd rfl empty
  | cons node rest =>
    -- Only a program without statements gives the result it was started with.
    have agree := Eval.program_forgets (eval_forgets deeper) Store.globalScope .null (node :: rest)
      machine (machine.forget id) rfl
    exact (shows_settle agree).mono fun _ => trivial

theorem runFrom_failed (depth : Nat) (failure : Failure) (machine : Machine)
    (sources : List Bytes) :
    Machine.runFrom depth (.failed failure, machine) sources = (.failed failure, machine) := by
  cases sources <;> rfl

theorem shows_runFrom {loose known : Prop} {depth depth' : Nat}
    (deeper : Eval.Reaches loose depth depth') {sources : List Bytes} {bodies : List (List Node)}
    (each : sources.Forall₂ ParsesTo bodies) {a b : Value} (same : known → b = a.forget id)
    (machine : Machine) :
    Shows loose ((bodies = [] → known) ∧ ∀ body ∈ bodies.getLast?, body ≠ [])
      (Machine.runFrom (depth + 1) (.value a, machine) sources)
      (Eval.program (eval depth') Store.globalScope b (bodies.flatten.map Node.unplaced)
        (machine.forget id)) := by
  -- On the sources. An empty program gives null, where the third run keeps the value that it has. A
  -- later program hides that, so only the last one has to have statements.
  induction each generalizing known a b machine with
  | nil => exact .value fun wanted => same (wanted.1 rfl)
  | @cons source body rest bodies parsed others ih =>
    have first := shows_program deeper machine body b
    rw [Machine.runFrom, run_parsed parsed, List.flatten_cons, List.map_append, program_append]
    change Shows _ _ _ (EStateM.bind _ _ _)
    unfold EStateM.bind
    generalize Machine.settle _ = state at first ⊢
    generalize Eval.program (eval depth') _ b (body.map Node.unplaced) _ = result at first ⊢
    cases first with
    | value sameFirst =>
      refine (ih sameFirst _).mono fun wanted => ⟨?_, ?_⟩
      · rintro rfl
        exact wanted.2 body rfl
      · intro last member
        refine wanted.2 last ?_
        rw [List.getLast?_cons, member]
        rfl
    | failed =>
      rw [runFrom_failed]
      exact .failed
    | excused excused =>
      rw [runFrom_failed]
      exact .excused excused

section

variable {sources : List Bytes} {bodies : List (List Node)} {body : List Node}

/-- The run of the pieces and the run of the whole, both shown by one run. -/
theorem shows_both {loose : Prop} {depth depth' bound : Nat}
    (each : sources.Forall₂ ParsesTo bodies) (parsed : ParsesTo (joinSources sources) body)
    (same : body.map Node.unplaced = bodies.flatten.map Node.unplaced)
    (deeper : Eval.Reaches loose depth bound) (deeper' : Eval.Reaches loose depth' bound)
    (machine : Machine) :
    ∃ result, Shows loose (∀ body ∈ bodies.getLast?, body ≠ [])
        (machine.runPieces (depth + 1) sources) result ∧
      Shows loose True (machine.run (depth' + 1) (joinSources sources)) result := by
  have start : True → Value.null = Value.null.forget id := fun _ => rfl
  have pieces := shows_runFrom deeper each start machine
  refine ⟨_, pieces.mono fun wanted => ⟨fun _ => trivial, wanted⟩, ?_⟩
  rw [run_parsed parsed, ← same]
  exact shows_settle (Eval.program_forgets (eval_forgets deeper') Store.globalScope .null body
    machine (machine.forget id) rfl)

/-- A bound of zero stops every program, so pieces that finish with it are none at all. -/
theorem runPieces_of_finished (each : sources.Forall₂ ParsesTo bodies) (machine : Machine)
    (depth : Nat) (finished : (machine.runPieces depth sources).1.Finished) :
    ∃ depth', machine.runPieces depth sources = machine.runPieces (depth' + 1) sources := by
  cases depth with
  | succ depth => exact ⟨depth, rfl⟩
  | zero =>
    cases each with
    | nil => exact ⟨0, rfl⟩
    | cons parsed others =>
      rw [Machine.runPieces, Machine.runFrom, run_zero parsed, runFrom_failed] at finished
      exact finished.elim

end

/-- Sources that parse by themselves parse together, to all their statements. Run in order on one
machine up to the first failure, they do what the joined source does: whatever the bounds, the runs
agree when both finish, and with the same bound both finish or neither does. -/
theorem run_joined {sources : List Bytes} {bodies : List (List Node)}
    (each : sources.Forall₂ ParsesTo bodies) :
    (∃ body, ParsesTo (joinSources sources) body ∧
      body.map Node.unplaced = bodies.flatten.map Node.unplaced) ∧
    ∀ machine : Machine,
      (∀ depth depth', (machine.runPieces depth sources).1.Finished →
        (machine.run depth' (joinSources sources)).1.Finished →
        SameRun (∀ body ∈ bodies.getLast?, body ≠ []) (machine.runPieces depth sources)
          (machine.run depth' (joinSources sources))) ∧
      ∀ depth, (machine.runPieces (depth + 1) sources).1.Finished ↔
        (machine.run (depth + 1) (joinSources sources)).1.Finished := by
  obtain ⟨body, parsed, same⟩ := parsesTo_joined each
  refine ⟨⟨body, parsed, same⟩, fun machine => ⟨fun depth depth' finished finished' => ?_,
    fun depth => ?_⟩⟩
  · obtain ⟨d, pieces⟩ := runPieces_of_finished each machine depth finished
    obtain ⟨d', rfl⟩ : ∃ d', depth' = d' + 1 := by
      cases depth' with
      | zero =>
        rw [run_zero parsed] at finished'
        exact finished'.elim
      | succ d' => exact ⟨d', rfl⟩
    rw [pieces] at finished ⊢
    have deeper : Eval.Reaches True d (max d d') := .inr ⟨trivial, Nat.le_max_left d d'⟩
    have deeper' : Eval.Reaches True d' (max d d') := .inr ⟨trivial, Nat.le_max_right d d'⟩
    obtain ⟨result, first, second⟩ := shows_both each parsed same deeper deeper' machine
    exact first.sameRun second finished finished'
  · obtain ⟨result, first, second⟩ := shows_both each parsed same (.inl rfl) (.inl rfl) machine
    exact first.finished_iff second

/-- A declaration, a call that prints, a failure and a piece that is not reached. -/
def failingPieces : List Bytes := [utf8 "! p = print", utf8 "p(p)", utf8 "y", utf8 "p"]

def failingBodies : List (List Node) :=
  let place (start stop : Int) : Span := ⟨⟨start, 1, start + 1⟩, ⟨stop, 1, stop + 1⟩⟩
  [[.declare (place 0 11) (utf8 "p") true (.name (place 6 11) (utf8 "print"))],
    [.call (place 0 4) (.name (place 0 1) (utf8 "p")) [.name (place 2 3) (utf8 "p")]],
    [.name (place 0 1) (utf8 "y")], [.name (place 0 1) (utf8 "p")]]

theorem failingPieces_finished : (Machine.initial.runPieces 5 failingPieces).1.Finished := by
  cbv

theorem failingPieces_joined_finished :
    (Machine.initial.run 6 (joinSources failingPieces)).1.Finished := by
  cbv

theorem run_joined_failing :
    failingPieces.Forall₂ ParsesTo failingBodies ∧
      SameRun (∀ body ∈ failingBodies.getLast?, body ≠ [])
        (Machine.initial.runPieces 5 failingPieces)
        (Machine.initial.run 6 (joinSources failingPieces)) := by
  have each : failingPieces.Forall₂ ParsesTo failingBodies := by
    refine .cons ⟨⟨⟨0, 1, 1⟩, ⟨11, 1, 12⟩⟩, ?_⟩ (.cons ⟨⟨⟨0, 1, 1⟩, ⟨4, 1, 5⟩⟩, ?_⟩
      (.cons ⟨⟨⟨0, 1, 1⟩, ⟨1, 1, 2⟩⟩, ?_⟩ (.cons ⟨⟨⟨0, 1, 1⟩, ⟨1, 1, 2⟩⟩, ?_⟩ .nil))) <;> cbv
  exact ⟨each, ((run_joined each).2 Machine.initial).1 5 6 failingPieces_finished
    failingPieces_joined_finished⟩

end Tide
