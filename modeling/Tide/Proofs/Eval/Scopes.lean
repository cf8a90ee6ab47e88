import Mathlib
import Tide.Proofs.Eval.Discipline
import Tide.Proofs.Scope.WellFormed

/-!
# The scopes of a run

Whatever is run, one program after another and however each of them ends, the store stays well
formed: parents come before their children, the way outwards from any scope ends at the global one,
closures were made in scopes that exist, and the values and the markers of every scope are in step.
Scopes are added and never taken away, and none of them changes its parent.

## Proof strategy

Any code will do, so the discipline asks nothing of it. It asks that code runs in scopes that exist
and that the store is well formed and extends the one that the evaluation started with. Programs in
order are an induction on their list.
-/
namespace Tide

namespace Eval

/-- Any code in scopes that exist, in a well-formed store that extends the first one. -/
def keepingScopes (start : Store) : Discipline where
  code _ := True
  home n s := s < n
  entered n s := s < n
  store σ := σ.WellFormed ∧ start.Extends σ
  code_part _ _ := trivial
  home_mono more here := here.trans_le more
  entered_mono more here := here.trans_le more
  home_of_entered here := here
  lookup kept _ found := Value.held_iff_captures.mpr (kept.1.captured.lookup found)
  declare kept _ given allowed :=
    ⟨kept.1.declare (Value.held_iff_captures.mp given) allowed, kept.2.trans (.update fun _ => rfl)⟩
  assign kept _ given _ :=
    ⟨kept.1.assign (Value.held_iff_captures.mp given), kept.2.trans (.updateHome fun _ => rfl)⟩
  delete kept _ _ _ := ⟨kept.1.delete, kept.2.trans (.updateHome fun _ => rfl)⟩
  child kept given := ⟨⟨kept.1.child given, kept.2.trans (.child _)⟩, Nat.lt_succ_self _⟩

end Eval

namespace Machine

variable {machine : Machine}

/-- What one evaluation keeps, in any scope that exists. -/
theorem settle_wellFormed (wellFormed : machine.store.WellFormed) {s : ScopeId}
    (inside : s < machine.store.size) (depth : Nat) (node : Node) :
    (settle (eval depth node s machine)).2.store.WellFormed ∧
      machine.store.Extends (settle (eval depth node s machine)).2.store ∧
      ∀ value, (settle (eval depth node s machine)).1 = .value value →
        ∀ t, value.Captures t → t < (settle (eval depth node s machine)).2.store.size := by
  obtain ⟨⟨kept, extended⟩, held⟩ := (Eval.keepingScopes machine.store).settle_eval depth
    node s trivial inside ⟨wellFormed, .refl _⟩
  exact ⟨kept, extended, fun value ended => Value.held_iff_captures.mp (held value ended)⟩

/-- What programs in order keep. -/
theorem evaluateAll_wellFormed (wellFormed : machine.store.WellFormed)
    (programs : List (Nat × Node)) :
    (machine.evaluateAll eval programs).2.store.WellFormed ∧
      machine.store.Extends (machine.evaluateAll eval programs).2.store ∧
      ∀ value, .value value ∈ (machine.evaluateAll eval programs).1 →
        ∀ t, value.Captures t → t < (machine.evaluateAll eval programs).2.store.size := by
  induction programs generalizing machine with
  | nil => exact ⟨wellFormed, .refl _, nofun⟩
  | cons entry rest ih =>
    obtain ⟨depth, program⟩ := entry
    obtain ⟨kept, extended, first⟩ :=
      settle_wellFormed wellFormed (s := Store.globalScope) wellFormed.nonempty depth program
    obtain ⟨keptLast, extendedLast, others⟩ := ih kept
    refine ⟨keptLast, extended.trans extendedLast, fun value member t captured => ?_⟩
    rcases List.mem_cons.mp member with ended | member
    · -- Scopes are never taken away, so what an early value captured is still there.
      exact (first value ended.symm t captured).trans_le extendedLast.size
    · exact others value member t captured

end Machine

/-- After any programs, each scope but the global one has a parent that was made before it, and
following parents ends at the global scope. Closures in bindings and in results were made in scopes
that exist, no scope binds a name twice or has a constant that it does not bind, and no further
program changes the parent of a scope. -/
theorem scopes_wellFormed (programs : List (Nat × Node)) :
    let (outcomes, last) := Machine.initial.evaluateAll eval programs
    (∀ s p, last.store.parent? s = some p → p < s) ∧
      (∀ s < last.store.size, last.store.parent? s = none ↔ s = Store.globalScope) ∧
      (∀ s < last.store.size, Relation.ReflTransGen last.store.Up s Store.globalScope) ∧
      (∀ scope ∈ last.store.scopes, ∀ b ∈ scope.bindings, ∀ s, b.value.Captures s →
        s < last.store.size) ∧
      (∀ value, .value value ∈ outcomes → ∀ s, value.Captures s → s < last.store.size) ∧
      (∀ scope ∈ last.store.scopes, (scope.bindings.map (·.name)).Nodup ∧
        ∀ name ∈ scope.constants, ∃ value, scope.find? name = some ⟨name, value⟩) ∧
      ∀ more, last.store.Extends (last.evaluateAll eval more).2.store := by
  have start : Machine.initial.store.WellFormed := Store.wellFormed_initial
  obtain ⟨kept, -, results⟩ := Machine.evaluateAll_wellFormed start programs
  refine ⟨fun _ _ => kept.parent_lt, fun s inside => ⟨kept.orphan inside, ?_⟩,
    fun s => kept.reaches_global, kept.captured, results, fun scope member => ?_,
    fun more => (Machine.evaluateAll_wellFormed kept more).2.1⟩
  · rintro rfl
    exact kept.parent?_global
  · have maps := kept.inStep scope member
    exact ⟨maps.distinct, fun name marked =>
      Scope.find?_of_binds (maps.bound (decide_eq_true marked))⟩

end Tide
