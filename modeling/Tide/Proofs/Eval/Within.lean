import Mathlib
import Tide.Proofs.Eval.Simulation
import Tide.Proofs.Eval.Sources

/-!
# The code that a run comes across

A run evaluates nodes of the program it is given and of the code in the closures that it finds or
makes, and nothing else. So if all these nodes pass a check, nothing depends on what evaluation does
at a node that fails it: `Eval.patched` does there whatever one likes, and cannot be told from
`eval`.

## Proof strategy

A tree is like itself alone, and only if all its nodes pass. The same goes for values, with the code
in their closures, and for stores. This is a likeness, so evaluation keeps it. Along the way no node
is met that fails.
-/
namespace Tide

/-- The closures in the value have code with the property throughout. -/
def Value.Within (P : Node → Prop) (value : Value) : Prop :=
  value.Held (Node.Every P) fun _ => True

/-! ### A likeness for trees and values with a property -/

theorem forall₂_self_iff {α : Type} {P : α → Prop} {xs ys : List α} :
    List.Forall₂ (fun a b => P a ∧ a = b) xs ys ↔ (∀ x ∈ xs, P x) ∧ xs = ys := by
  rw [List.forall₂_and_left, List.forall₂_eq_eq_eq]

namespace Likeness

variable {P : Node → Prop}

theorem match_within_value_iff {a b : Value} :
    (a.Within P ∧ a = b) ↔ Value.Match Eq Eq (fun a b => a.Every P ∧ a = b)
      (fun a b => a.Within P ∧ a = b) a b := by
  have fields (xs ys : List (Bytes × Value)) :
      List.Forall₂ (fun a b => a.1 = b.1 ∧ a.2.Within P ∧ a.2 = b.2) xs ys ↔
        (∀ entry ∈ xs, entry.2.Within P) ∧ xs = ys := by
    rw [← forall₂_self_iff]
    simp only [Prod.ext_iff, and_left_comm]
  constructor
  · rintro ⟨held, rfl⟩
    cases held with
    | array inside => exact .array rfl (forall₂_self_iff.mpr ⟨inside, rfl⟩)
    | object inside => exact .object rfl ((fields _ _).mpr ⟨inside, rfl⟩)
    | function statements => exact .function rfl (forall₂_self_iff.mpr ⟨statements, rfl⟩)
    | lambda result => exact .lambda rfl ⟨result, rfl⟩
    | returned inside => exact .returned rfl ⟨inside, rfl⟩
    | _ => constructor <;> rfl
  · intro alike
    cases alike with
    | null => exact ⟨.null, rfl⟩
    | bool b => exact ⟨.bool b, rfl⟩
    | number written => exact ⟨.number .., by rw [written]⟩
    | text => exact ⟨.text .., rfl⟩
    | native f => exact ⟨.native f, rfl⟩
    | array same inside =>
      obtain ⟨held, rfl⟩ := forall₂_self_iff.mp inside
      exact ⟨.array held, by rw [same]⟩
    | object same inside =>
      obtain ⟨held, rfl⟩ := (fields _ _).mp inside
      exact ⟨.object held, by rw [same]⟩
    | function same statements =>
      obtain ⟨code, rfl⟩ := forall₂_self_iff.mp statements
      exact ⟨.function code trivial, by rw [same]⟩
    | lambda same result => exact ⟨.lambda result.1 trivial, by rw [same, result.2]⟩
    | returned same inside => exact ⟨.returned inside.1, by rw [same, inside.2]⟩

/-- Each thing is like itself only, and only if the code in it has the property throughout. -/
def within (P : Node → Prop) : Likeness :=
  { Likeness.same with
    node := fun a b => a.Every P ∧ a = b
    value := fun a b => a.Within P ∧ a = b
    node_match := by
      rintro a _ ⟨every, rfl⟩
      exact match_self fun part inside => ⟨(Node.every_iff.mp every).2 part inside, rfl⟩
    value_iff := match_within_value_iff }

end Likeness

/-! ### Stores -/

/-- Each scope is like itself only, and only if its values have the property. -/
def ScopeLikeness.within (Q : Value → Prop) : ScopeLikeness fun a b => Q a ∧ a = b where
  scope s t := s.All Q ∧ s = t
  parent := by
    rintro s _ ⟨-, rfl⟩
    rfl
  find? := by
    rintro s _ ⟨held, rfl⟩ name
    cases found : s.find? name with
    | none => exact .none
    | some binding => exact .some ⟨rfl, ⟨held _ (List.mem_of_find?_eq_some found), rfl⟩⟩
  marks := by
    rintro s _ ⟨-, rfl⟩ name
    rfl
  empty _ := ⟨nofun, rfl⟩
  declare := by
    rintro s _ a _ ⟨held, rfl⟩ name ⟨given, rfl⟩ constant
    exact ⟨held.declare given, rfl⟩
  assign := by
    rintro s _ a _ ⟨held, rfl⟩ name ⟨given, rfl⟩
    exact ⟨held.assign given, rfl⟩
  delete := by
    rintro s _ ⟨held, rfl⟩ name
    exact ⟨held.delete, rfl⟩

theorem Store.like_within_iff {Q : Value → Prop} {store store' : Store} :
    store.Like (.within Q) store' ↔ store.All Q ∧ store = store' := by
  constructor
  · rintro ⟨size, scopes⟩
    constructor
    · intro scope member
      obtain ⟨s, found⟩ := Array.getElem?_of_mem member
      have here : store.scope? s = some scope := found
      rcases rel_cases (scopes s) with ⟨left, -⟩ | ⟨_, _, left, -, held, -⟩
      · simp [here] at left
      · cases here.symm.trans left
        exact held
    -- Without the property this is the likeness of stores that are the same.
    · refine Store.like_same_iff.mp ⟨size, fun s => ?_⟩
      rcases rel_cases (scopes s) with ⟨left, right⟩ | ⟨_, _, left, right, pair⟩
      · rw [left, right]
        exact .none
      · rw [left, right]
        exact .some pair.2
  · rintro ⟨held, rfl⟩
    refine ⟨rfl, fun s => ?_⟩
    cases found : store.scope? s with
    | none => exact .none
    | some scope => exact .some ⟨held.scope? found, rfl⟩

namespace Eval

/-! ### Two evaluations of code with a property -/

/-- The comparison of two evaluations that start out the same, on code with the property. -/
def Simulation.within (P : Node → Prop) : Simulation :=
  { Likeness.within P with
    scopes := .within (Value.Within P)
    output := Simulation.same.output
    output_append := Simulation.same.output_append
    loose := False }

theorem Simulation.machines_within_iff {P : Node → Prop} {m n : Machine} :
    (Simulation.within P).Machines m n ↔ m.store.All (Value.Within P) ∧ m = n := by
  constructor
  · rintro ⟨store, fresh, output⟩
    obtain ⟨held, sameStore⟩ := Store.like_within_iff.mp store
    have sameNext : m.nextIdentity = n.nextIdentity := fresh 0
    have sameOutput : m.output = n.output := output
    refine ⟨held, ?_⟩
    cases m
    cases n
    simp_all
  · rintro ⟨held, rfl⟩
    exact ⟨Store.like_within_iff.mpr ⟨held, rfl⟩, fun _ => rfl, rfl⟩

/-- Evaluations that agree on code with the property end in the same way. -/
theorem Simulation.eq_of_agrees {P : Node → Prop} {ev ev' : Node → ScopeId → Eval Value}
    (agrees : (Simulation.within P).Agrees ev ev') {machine : Machine}
    (held : machine.store.All (Value.Within P)) {node : Node} (every : node.Every P) (s : ScopeId) :
    ev node s machine = ev' node s machine ∧
      (Machine.settle (ev node s machine)).2.store.All (Value.Within P) := by
  have agree := agrees node node s ⟨every, rfl⟩ machine machine
    (machines_within_iff.mpr ⟨held, rfl⟩)
  -- Nothing is excused, so both end in the same way.
  obtain ⟨a, m, b, n, first, second, machines, values⟩ |
    ⟨e, m, f, n, first, second, machines, failures⟩ | ⟨-, -, -, never, -⟩ := agree.cases
  · obtain ⟨held, rfl⟩ := machines_within_iff.mp machines
    rw [first, second, values.2]
    exact ⟨rfl, held⟩
  · obtain ⟨held, rfl⟩ := machines_within_iff.mp machines
    rw [first, second, Failure.eq_of_like failures]
    exact ⟨rfl, held⟩
  · exact never.elim

/-! ### Evaluation with something else for nodes that fail a check -/

/-- Evaluation that does something else at the nodes that fail the check. -/
def patched (check : Node → Bool) (other : Nat → Node → ScopeId → Eval Value) :
    Nat → Node → ScopeId → Eval Value
  | 0, _, _ => throw .exhausted
  | depth + 1, node, s =>
    if check node then step (patched check other depth) depth node s else other depth node s

variable {check : Node → Bool} (other : Nat → Node → ScopeId → Eval Value)

theorem agrees_patched (depth : Nat) :
    (Simulation.within (check · = true)).Agrees (eval depth) (patched check other depth) := by
  induction depth with
  | zero => exact fun _ _ _ _ => .throw .exhausted
  | succ depth ih =>
    rintro node _ s ⟨every, rfl⟩
    -- The node itself passes, so both take the same step. Its parts pass too, and so does the code
    -- of every closure that the step comes across.
    have passed : check node = true := every node .refl
    simp only [patched, passed, if_true]
    exact Simulation.step_like ih (.inl rfl) s ⟨every, rfl⟩

end Eval

/-- Programs whose nodes pass the check never get to a node that fails it, run after run. -/
theorem Machine.evaluateAll_patched {check : Node → Bool}
    (other : Nat → Node → ScopeId → Eval Value) {machine : Machine}
    (held : machine.store.All (Value.Within (check · = true))) {programs : List (Nat × Node)}
    (passed : ∀ entry ∈ programs, entry.2.Every (check · = true)) :
    machine.evaluateAll (Eval.patched check other) programs =
      machine.evaluateAll eval programs := by
  induction programs generalizing machine with
  | nil => rfl
  | cons entry rest ih =>
    obtain ⟨depth, program⟩ := entry
    obtain ⟨first, others⟩ := List.forall_mem_cons.mp passed
    -- What the first program leaves behind is all that the next ones know of it.
    obtain ⟨same, left⟩ := Eval.Simulation.eq_of_agrees (Eval.agrees_patched other depth) held first
      Store.globalScope
    simp only [evaluateAll, ← same, ih left others]

end Tide
