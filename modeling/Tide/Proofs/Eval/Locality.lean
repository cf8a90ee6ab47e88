import Mathlib
import Tide.Proofs.Eval.Constants
import Tide.Proofs.Eval.Discipline
import Tide.Proofs.Scope.Laws

/-!
# Declarations stay local

Evaluation in a scope declares names in that scope and in scopes that it opens itself, and nowhere
else. Any other scope that was there binds no name and marks no name that it did not bind or mark
before. A call runs in a scope of its own, so applying a function declares nothing in any scope that
was there, not even in the one that the function was made in. What another scope can lose is a name
that some code deletes; as long as none does, the name stays bound with its marker.

## Proof strategy

Code is only ever entered in the scope of the evaluation and in scopes that are new, so a change
that declares is never a change of an old scope elsewhere. Assignments and deletions do reach old
scopes, and neither of them adds a name.
-/
namespace Tide

namespace Store

/-- The scopes of the first store that are not free bind and mark no more names than they did. -/
structure Confines (start : Store) (free : ScopeId → Prop) (store : Store) : Prop where
  size : start.size ≤ store.size
  binds {t : ScopeId} {name : Bytes} (old : t < start.size) (closed : ¬ free t)
    (bound : store.Binds t name) : start.Binds t name
  marks {t : ScopeId} {name : Bytes} (old : t < start.size) (closed : ¬ free t)
    (marked : store.Marks t name) : start.Marks t name

variable {start store : Store} {free : ScopeId → Prop} {s t : ScopeId} {x name : Bytes}
  {value : Value} {constant : Bool}

/-- A change confines them if what they bind or mark after it, they did before it. -/
theorem Confines.step (confined : start.Confines free store) {after : Store}
    (size : after.size = store.size)
    (bound : ∀ t name, t < start.size → ¬ free t → after.Binds t name → store.Binds t name)
    (marked : ∀ t name, t < start.size → ¬ free t → after.Marks t name → store.Marks t name) :
    start.Confines free after where
  size := confined.size.trans size.ge
  binds old closed now := confined.binds old closed (bound _ _ old closed now)
  marks old closed now := confined.marks old closed (marked _ _ old closed now)

namespace Confines

variable (confined : start.Confines free store)

include confined

theorem declare (here : free s ∨ start.size ≤ s) :
    start.Confines free (store.update s (·.declare x value constant)) := by
  -- The declaring scope is free or new, so it is none of those that are confined.
  have elsewhere {t : ScopeId} (old : t < start.size) (closed : ¬ free t) : s ≠ t := by
    rintro rfl
    rcases here with within | new
    · exact closed within
    · exact old.not_ge new
  refine confined.step (size_update ..) ?_ ?_
  · intro t name old closed now
    rw [Binds, binding?_update, if_neg (elsewhere old closed)] at now
    exact now
  · intro t name old closed now
    rw [Marks, marks_update, if_neg (elsewhere old closed)] at now
    exact now

theorem updateHome {f : Scope → Scope}
    (bound : ∀ home t name, (store.update home f).Binds t name → store.Binds t name)
    (marked : ∀ home t name, (store.update home f).Marks t name → store.Marks t name) :
    start.Confines free (store.updateHome s x f) := by
  unfold Store.updateHome
  split
  next home _ =>
    exact confined.step (size_update ..) (fun t name _ _ => bound home t name)
      (fun t name _ _ => marked home t name)
  next => exact confined

theorem assign : start.Confines free (store.updateHome s x (·.assign x value)) :=
  confined.updateHome (fun _ _ _ => binds_of_assign.mp) fun home _ _ => (marks_of_assign home).mp

theorem delete : start.Confines free (store.updateHome s x (·.delete x)) :=
  confined.updateHome (fun _ _ _ now => (binds_of_delete.mp now).1)
    fun home _ _ now => ((marks_of_delete home).mp now).1

theorem child (parent : ScopeId) : start.Confines free (store.child parent).2 where
  size := confined.size.trans ((Nat.le_succ _).trans (size_child ..).ge)
  binds := by
    intro t name old closed bound
    have other : t ≠ store.size := (old.trans_le confined.size).ne
    unfold Binds binding? at bound
    rw [scope?_child, if_neg other] at bound
    exact confined.binds old closed bound
  marks := by
    intro t name old closed marked
    have other : t ≠ store.size := (old.trans_le confined.size).ne
    unfold Marks Store.marks at marked
    rw [scope?_child, if_neg other] at marked
    exact confined.marks old closed marked

end Confines

theorem confines_refl (store : Store) (free : ScopeId → Prop) : store.Confines free store :=
  ⟨le_rfl, fun _ _ bound => bound, fun _ _ marked => marked⟩

/-- The scope binds the name and marks it just as it did in the first store. -/
structure Retains (start : Store) (t : ScopeId) (x : Bytes) (store : Store) : Prop where
  binds : store.Binds t x
  marks : store.Marks t x ↔ start.Marks t x

namespace Retains

variable (retained : start.Retains t x store)

include retained

theorem inside : t < store.size := by
  obtain ⟨b, bound⟩ := Option.isSome_iff_exists.mp retained.binds
  obtain ⟨scope, there, -⟩ := Option.bind_eq_some_iff.mp bound
  exact (Array.getElem?_eq_some_iff.mp there).1

/-- Only the scope itself could change its marker, and there the declaration would be refused. -/
theorem declare (allowed : store.declareFault? s name = none) :
    start.Retains t x (store.update s (·.declare name value constant)) := by
  have other : ¬ (s = t ∧ name = x) := by
    rintro ⟨rfl, rfl⟩
    have bound := retained.binds
    simp only [Binds] at bound
    simp [declareFault?_eq, bound] at allowed
  by_cases here : s = t
  · subst here
    constructor
    · rw [Binds, binding?_declare retained.inside, if_neg other, Option.or_none]
      exact retained.binds
    · rw [Marks, marks_declare retained.inside, decide_eq_false other, Bool.and_false,
        Bool.or_false]
      exact retained.marks
  · constructor
    · rw [Binds, binding?_update, if_neg here]
      exact retained.binds
    · rw [Marks, marks_update, if_neg here]
      exact retained.marks

theorem assign : start.Retains t x (store.updateHome s name (·.assign name value)) := by
  unfold Store.updateHome
  split
  next home _ =>
    exact ⟨binds_of_assign.mpr retained.binds, (marks_of_assign home).trans retained.marks⟩
  next => exact retained

theorem delete (other : name ≠ x) :
    start.Retains t x (store.updateHome s name (·.delete name)) := by
  unfold Store.updateHome
  split
  next home _ =>
    have kept : ¬ (t = home ∧ x = name) := fun both => other both.2.symm
    refine ⟨binds_of_delete.mpr ⟨retained.binds, kept⟩, ?_⟩
    rw [marks_of_delete, and_iff_left kept]
    exact retained.marks
  next => exact retained

theorem child (parent : ScopeId) : start.Retains t x (store.child parent).2 := by
  have old : t ≠ store.size := retained.inside.ne
  constructor
  · unfold Binds binding?
    rw [scope?_child, if_neg old]
    exact retained.binds
  · unfold Marks Store.marks
    rw [scope?_child, if_neg old]
    exact retained.marks

end Retains
end Store

namespace Eval

/-- Any code in the free scopes and in scopes that are new, in a store that confines the others. -/
def keepingNames (start : Store) (free : ScopeId → Prop) : Discipline where
  code _ := True
  home _ _ := True
  entered _ s := free s ∨ start.size ≤ s
  store := start.Confines free
  code_part _ _ := trivial
  home_mono _ _ := trivial
  entered_mono _ here := here
  home_of_entered _ := trivial
  lookup _ _ _ := Value.held_iff_captures.mpr fun _ _ => trivial
  declare kept here _ _ := kept.declare here
  assign kept _ _ _ := kept.assign
  delete kept _ _ _ := kept.delete
  child kept _ := ⟨kept.child _, .inr kept.size⟩

/-- Code that does not delete a name, in a store that binds and marks it as the first one. -/
def keepingName (start : Store) (t : ScopeId) (x : Bytes) : Discipline where
  code := Node.Spares x
  home _ _ := True
  entered _ _ := True
  store store := start.Retains t x store ∧ store.All (Value.Spares x)
  code_part given inside := given.part inside
  home_mono _ _ := trivial
  entered_mono _ _ := trivial
  home_of_entered _ := trivial
  lookup kept _ found := kept.2.lookup found
  declare kept _ given allowed :=
    ⟨kept.1.declare allowed, kept.2.update fun _ held => held.declare given⟩
  assign kept _ given _ := ⟨kept.1.assign, kept.2.updateHome fun _ held => held.assign given⟩
  delete kept _ given _ :=
    ⟨kept.1.delete given.ne_of_del, kept.2.updateHome fun _ held => held.delete⟩
  child kept _ := ⟨⟨kept.1.child _, kept.2.child⟩, trivial⟩

end Eval

/-- Evaluation in a scope leaves every other scope that was there without new names and without new
markers, and applying a value to arguments does so for every scope that was there. A name that no
code deletes stays bound in every scope, with the marker that it had. -/
theorem declarations_stay_local (machine : Machine) (depth : Nat) (t : ScopeId) (name : Bytes) :
    (t < machine.store.size → ∀ node s, t ≠ s →
      let last := (Machine.settle (eval depth node s machine)).2.store
      (last.Binds t name → machine.store.Binds t name) ∧
        (last.Marks t name → machine.store.Marks t name)) ∧
    (t < machine.store.size → ∀ callee arguments span,
      let last :=
        (Machine.settle (Eval.apply (eval depth) depth callee arguments span machine)).2.store
      (last.Binds t name → machine.store.Binds t name) ∧
        (last.Marks t name → machine.store.Marks t name)) ∧
    (machine.store.All (Value.Spares name) → ∀ node s, node.Spares name →
      machine.store.Binds t name →
        let last := (Machine.settle (eval depth node s machine)).2.store
        last.Binds t name ∧ (last.Marks t name ↔ machine.store.Marks t name)) := by
  refine ⟨fun old node s other => ?_, fun old callee arguments span => ?_,
    fun functions node s tree bound => ?_⟩
  · -- Only the scope of the evaluation is free.
    obtain ⟨confined, -⟩ := (Eval.keepingNames machine.store (· = s)).settle_eval depth node s
      trivial (.inl rfl) (Store.confines_refl ..)
    exact ⟨confined.binds old other, confined.marks old other⟩
  · -- No scope that was there is free: the code of the function runs in a new one.
    let discipline := Eval.keepingNames machine.store fun _ => False
    have held (value : Value) : discipline.Holds machine.store.size value :=
      Value.held_iff_captures.mpr fun _ _ => trivial
    have run := Eval.Discipline.keeps_apply (discipline.disciplined_eval depth) depth span
      (held callee) fun value (_ : value ∈ arguments) => held value
    obtain ⟨confined, -⟩ := run.settle (Store.confines_refl ..) le_rfl
    exact ⟨confined.binds old not_false, confined.marks old not_false⟩
  · obtain ⟨⟨retained, -⟩, -⟩ := (Eval.keepingName machine.store t name).settle_eval depth node s
      tree trivial ⟨⟨bound, .rfl⟩, functions⟩
    exact ⟨retained.binds, retained.marks⟩

/-- The call `(|n| n)(null)`. -/
def appliedLambda : Node :=
  .call .zero (.lambda .zero [utf8 "n"] (.name .zero (utf8 "n"))) [.name .zero (utf8 "null")]

/-- The scope of a call that is running, below the global one. -/
def runningCall : Machine := ⟨(Store.initial.child Store.globalScope).2, [], 0⟩

theorem appliedLambda_stays_local :
    let last := (Machine.settle (eval 3 appliedLambda 1 runningCall)).2.store
    ¬ last.Binds Store.globalScope (utf8 "n") ∧
      last.Binds Store.globalScope (utf8 "true") ∧ last.Marks Store.globalScope (utf8 "true") := by
  have old : Store.globalScope < runningCall.store.size := by decide
  have fresh : ¬ runningCall.store.Binds Store.globalScope (utf8 "n") := by
    unfold Store.Binds
    decide
  have functions : runningCall.store.All (Value.Spares (utf8 "true")) :=
    (Store.All.initial .null .bool .native).child
  have tree : appliedLambda.Spares (utf8 "true") := by
    have leaf (name : Bytes) : (Node.name .zero name).Spares (utf8 "true") :=
      Node.spares_iff.mpr ⟨nofun, nofun⟩
    have closure : (Node.lambda .zero [utf8 "n"] (.name .zero (utf8 "n"))).Spares
        (utf8 "true") := by
      refine Node.spares_iff.mpr ⟨nofun, fun part inside => ?_⟩
      obtain rfl := List.mem_singleton.mp inside
      exact leaf _
    refine Node.spares_iff.mpr ⟨nofun, fun part inside => ?_⟩
    simp only [appliedLambda, Node.parts, List.mem_cons, List.not_mem_nil, or_false] at inside
    rcases inside with rfl | rfl
    · exact closure
    · exact leaf _
  refine ⟨fun bound => fresh ?_, ?_⟩
  · exact (((declarations_stay_local runningCall 3 Store.globalScope (utf8 "n")).1 old
      appliedLambda 1 (by decide)).1 bound)
  · obtain ⟨bound, marked⟩ :=
      (declarations_stay_local runningCall 3 Store.globalScope (utf8 "true")).2.2 functions
        appliedLambda 1 tree (by unfold Store.Binds; decide)
    exact ⟨bound, marked.mpr (by unfold Store.Marks; decide)⟩

end Tide
