import Tide.Eval.Evaluate
import Tide.Grammar.Program
import Tide.Token.Scan

/-!
# Running programs

A machine keeps its scopes between programs, so a later one sees what earlier ones declared, up
to the point where one of them failed.
-/
namespace Tide

/-- The tree of a source, with the warnings that scanning it gave either way. -/
structure Read where
  warnings : List Diagnostic
  program : Except Diagnostic Node

def read (source : Bytes) : Read :=
  let scanned := scan source
  match scanned.fault with
  | some fault => ⟨scanned.warnings, .error fault⟩
  | none => ⟨scanned.warnings, Program.parse scanned.tokens⟩

inductive Outcome where
  | value (value : Value)
  | refused (diagnostic : Diagnostic)
  | failed (failure : Failure)

namespace Machine

/-- Evaluates a node in the global scope. -/
def evaluate (machine : Machine) (depth : Nat) (node : Node) : Except Failure Value × Machine :=
  match eval depth node Store.globalScope machine with
  | .ok value machine => (.ok value, machine)
  | .error failure machine => (.error failure, machine)

/-- A source that does not parse changes nothing. -/
def run (machine : Machine) (depth : Nat) (source : Bytes) : Outcome × Machine :=
  match (read source).program with
  | .error diagnostic => (.refused diagnostic, machine)
  | .ok program =>
    match machine.evaluate depth program with
    | (.ok value, machine) => (.value value, machine)
    | (.error failure, machine) => (.failed failure, machine)

/-- The text printed so far, taken out of the machine. -/
def takeOutput (machine : Machine) : Bytes × Machine :=
  (machine.output, { machine with output := [] })

/-- The names of the global scope with the text of their values, by name. -/
def globals (machine : Machine) : List (Bytes × Bytes) :=
  (machine.store.names Store.globalScope).filterMap fun name =>
    match machine.store.lookup Store.globalScope name with
    | .ok value => some (name, value.render)
    | .error _ => none

/-- Far beyond what any program can reach. -/
def depthLimit : Nat := Nat.pow 2 60

end Machine
end Tide
