import Tide.Eval.Run

/-!
# Reading and running a source

What `read` and `run` do, in terms of the scanner, the parser and the evaluator, and what it means
to evaluate programs one after another.
-/
namespace Tide

open Grammar

theorem read_ok_iff {source : Bytes} {node : Node} :
    (read source).program = .ok node ↔
      (scan source).fault = none ∧ Program.parse (scan source).tokens = .ok node := by
  simp only [read]
  cases (scan source).fault <;> simp

namespace Machine

/-- What is left of an evaluation: its value or its failure, and the machine. -/
def settle : EStateM.Result Failure Machine Value → Outcome × Machine
  | .ok value machine => (.value value, machine)
  | .error failure machine => (.failed failure, machine)

theorem run_eq_settle {machine : Machine} {depth : Nat} {source : Bytes} {program : Node}
    (parsed : (read source).program = .ok program) :
    machine.run depth source = settle (eval depth program Store.globalScope machine) := by
  simp only [run, parsed, evaluate]
  cases eval depth program Store.globalScope machine <;> rfl

theorem run_eq_refused {machine : Machine} {depth : Nat} {source : Bytes}
    {diagnostic : Diagnostic} (refused : (read source).program = .error diagnostic) :
    machine.run depth source = (.refused diagnostic, machine) := by
  simp only [run, refused]

/-- Evaluates programs in order in the global scope, each to its own depth. One that fails does not
keep the next ones from being evaluated. -/
def evaluateAll (ev : Nat → Node → ScopeId → Eval Value) (machine : Machine) :
    List (Nat × Node) → List Outcome × Machine
  | [] => ([], machine)
  | (depth, program) :: rest =>
    let (outcome, next) := settle (ev depth program Store.globalScope machine)
    let (outcomes, last) := evaluateAll ev next rest
    (outcome :: outcomes, last)

end Machine
end Tide
