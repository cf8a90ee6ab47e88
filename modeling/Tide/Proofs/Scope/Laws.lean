import Mathlib
import Tide.Eval.Machine
import Tide.Proofs.Scope.Outward

/-!
# The laws of scopes

What every scope of a store sees after a name was declared, assigned or deleted in one of them, for
every store that these changes can build. A name is looked up outwards, so what a scope sees is
decided by the scopes on its way out. A declaration is seen by the scopes whose way to it is clear
of the name, an assignment by those that resolve the name to the same scope, and behind a deletion
they see what the next scope further out has. No other look-up changes, and a change that is refused
leaves everything as it was.

## Proof strategy

The binding that a scope has itself is followed through each change. A look-up takes that binding or
goes on at the parent, which has a smaller number, so the statements about all scopes are inductions
along the way outwards.
-/
namespace Tide

namespace Store

def root (store : Store) : Store := ⟨store.scopes.push ⟨none, [], []⟩⟩

/-- The stores that can be built: trees of scopes with any declarations, assignments and deletions
in any order. -/
inductive Grown : Store → Prop where
  | empty : Grown ⟨#[]⟩
  | root {store : Store} (grown : Grown store) : Grown store.root
  | child {store : Store} {parent : ScopeId} (grown : Grown store) (inside : parent < store.size) :
      Grown (store.child parent).2
  | declare {store after : Store} {s : ScopeId} {name : Bytes} {value : Value} {constant : Bool}
      (grown : Grown store) (done : store.declare s name value constant = .ok after) : Grown after
  | assign {store after : Store} {s : ScopeId} {name : Bytes} {value : Value}
      (grown : Grown store) (done : store.assign s name value = .ok after) : Grown after
  | delete {store after : Store} {s : ScopeId} {name : Bytes} (grown : Grown store)
      (done : store.delete s name = .ok after) : Grown after

variable {store after : Store} {s t home : ScopeId} {x y name : Bytes} {value : Value}
  {constant : Bool}

/-! ### What a change of one scope is -/

theorem declare_ok_iff : store.declare s name value constant = .ok after ↔
    store.declareFault? s name = none ∧ store.update s (·.declare name value constant) = after := by
  unfold Store.declare
  cases store.declareFault? s name <;> simp

theorem assign_ok_iff : store.assign s name value = .ok after ↔
    store.assignFault? s name = none ∧
      store.updateHome s name (·.assign name value) = after := by
  unfold Store.assign
  cases store.assignFault? s name <;> simp

theorem delete_ok_iff : store.delete s name = .ok after ↔
    store.deleteFault? s name = none ∧ store.updateHome s name (·.delete name) = after := by
  unfold Store.delete
  cases store.deleteFault? s name <;> simp

theorem updateHome_eq (resolved : store.resolve s name = some home) (f : Scope → Scope) :
    store.updateHome s name f = store.update home f := by
  simp [updateHome, resolved]

theorem parent?_updateHome {f : Scope → Scope}
    (keeps : ∀ scope, (f scope).parent = scope.parent) :
    (store.updateHome s name f).parent? t = store.parent? t := by
  unfold updateHome
  split
  · exact parent?_update keeps t
  · rfl

/-- No change of bindings moves a scope. -/
theorem parent?_declare :
    ∀ t, (store.update s (·.declare x value constant)).parent? t = store.parent? t :=
  parent?_update fun _ => rfl

theorem parent?_assign : ∀ t, (store.update s (·.assign x value)).parent? t = store.parent? t :=
  parent?_update fun _ => rfl

theorem parent?_delete : ∀ t, (store.update s (·.delete x)).parent? t = store.parent? t :=
  parent?_update fun _ => rfl

theorem Ordered.declare (ordered : store.Ordered) (s : ScopeId) (x : Bytes) (value : Value)
    (constant : Bool) : (store.update s (·.declare x value constant)).Ordered :=
  ordered.of_parents parent?_declare

theorem Ordered.assign (ordered : store.Ordered) (s : ScopeId) (x : Bytes) (value : Value) :
    (store.update s (·.assign x value)).Ordered :=
  ordered.of_parents parent?_assign

theorem Ordered.delete (ordered : store.Ordered) (s : ScopeId) (x : Bytes) :
    (store.update s (·.delete x)).Ordered :=
  ordered.of_parents parent?_delete

theorem Grown.ordered (grown : store.Grown) : store.Ordered := by
  induction grown with
  | empty =>
    intro s p up
    simp [Up, parent?, scope?] at up
  | @root store _ ih =>
    -- A new root has no parent, and the other scopes keep theirs.
    intro s p up
    by_cases new : s = store.scopes.size
    · simp [Up, parent?, scope?, Store.root, new] at up
    · have same : store.root.parent? s = store.parent? s := by
        simp [parent?, scope?, Store.root, Array.getElem?_push, new]
      exact ih (same.symm.trans up)
  | child _ inside ih =>
    intro s p up
    unfold Up at up
    rw [parent?_child] at up
    split at up
    next new =>
      -- The new scope is numbered after all others.
      obtain rfl := Option.some.inj up
      exact new ▸ inside
    next => exact ih up
  | declare _ done ih =>
    obtain ⟨-, rfl⟩ := declare_ok_iff.mp done
    exact ih.declare _ _ _ _
  | assign _ done ih =>
    obtain ⟨-, rfl⟩ := assign_ok_iff.mp done
    exact ih.of_parents fun _ => parent?_updateHome fun _ => rfl
  | delete _ done ih =>
    obtain ⟨-, rfl⟩ := delete_ok_iff.mp done
    exact ih.of_parents fun _ => parent?_updateHome fun _ => rfl

/-- Every store that can be built has its maps in step. -/
theorem Grown.inStep (grown : store.Grown) : store.InStep := by
  induction grown with
  | empty => exact fun scope member => absurd member (by simp)
  | root _ ih => exact ih.push none
  | child _ _ ih => exact ih.push _
  | declare _ done ih =>
    obtain ⟨allowed, rfl⟩ := declare_ok_iff.mp done
    exact ih.declare allowed
  | assign _ done ih =>
    obtain ⟨-, rfl⟩ := assign_ok_iff.mp done
    exact ih.assign
  | delete _ done ih =>
    obtain ⟨-, rfl⟩ := delete_ok_iff.mp done
    exact ih.delete

/-! ### Bindings and markers after each change -/

theorem binding?_update (f : Scope → Scope) :
    (store.update s f).binding? t y =
      if s = t then (store.scope? t).bind fun scope => (f scope).find? y
      else store.binding? t y := by
  unfold binding?
  rw [scope?_update]
  split
  · cases store.scope? t <;> rfl
  · rfl

theorem binding?_declare (inside : s < store.size) :
    (store.update s (·.declare name value constant)).binding? t y =
      (store.binding? t y).or
        (if s = t ∧ name = y then some ⟨name, value⟩ else none) := by
  rw [binding?_update]
  by_cases here : s = t
  · subst here
    obtain ⟨scope, there⟩ : ∃ scope, store.scope? s = some scope :=
      ⟨_, Array.getElem?_eq_getElem inside⟩
    simp [binding?, there, Scope.find?_declare]
  · simp [here]

theorem binding?_assign :
    (store.update home (·.assign name value)).binding? t y =
      if home = t ∧ name = y then (store.binding? t y).map ({ · with value })
      else store.binding? t y := by
  rw [binding?_update]
  by_cases here : home = t
  · subst here
    simp only [binding?, true_and, if_true]
    cases there : store.scope? home with
    | none => simp
    | some scope =>
      simp only [Option.bind_some, Scope.find?_assign]
      cases found : scope.find? y with
      | none => simp
      | some b =>
        -- Only bindings of that name are rewritten, and this one has the name it is found by.
        have named : b.name = y := by simpa using List.find?_some found
        by_cases same : name = y
        · simp [named, same]
        · simp [named, same, Ne.symm same]
  · simp [here]

theorem binding?_delete :
    (store.update home (·.delete name)).binding? t y =
      if home = t ∧ name = y then none else store.binding? t y := by
  rw [binding?_update]
  by_cases here : home = t
  · subst here
    simp only [binding?, true_and, if_true]
    cases store.scope? home with
    | none => simp
    | some scope => simp [Scope.find?_delete]
  · simp [here]

theorem binds_of_assign :
    (store.update home (·.assign x value)).Binds t y ↔ store.Binds t y := by
  unfold Binds
  rw [binding?_assign]
  split <;> simp

theorem binds_of_delete : (store.update home (·.delete x)).Binds t y ↔
    store.Binds t y ∧ ¬ (t = home ∧ y = x) := by
  unfold Binds
  rw [binding?_delete, @eq_comm _ t home, @eq_comm _ y x]
  split
  next here => simp [here]
  next elsewhere => simp [elsewhere]

theorem marks_declare (inside : s < store.size) :
    (store.update s (·.declare name value constant)).marks t y =
      (store.marks t y || constant && decide (s = t ∧ name = y)) := by
  rw [marks_update]
  by_cases here : s = t
  · subst here
    obtain ⟨scope, there⟩ : ∃ scope, store.scope? s = some scope :=
      ⟨_, Array.getElem?_eq_getElem inside⟩
    simp [marks, there, Scope.marks_declare]
  · simp [here]

theorem marks_delete :
    (store.update home (·.delete name)).marks t y =
      if home = t ∧ name = y then false else store.marks t y := by
  rw [marks_update]
  by_cases here : home = t
  · subst here
    simp only [marks, true_and, if_true]
    cases store.scope? home with
    | none => simp
    | some scope => simp [Scope.marks_delete]
  · simp [here]

theorem InStep.binds_of_marks (inStep : store.InStep) (marked : store.Marks t y) :
    store.Binds t y := by
  unfold Marks marks at marked
  cases there : store.scope? t with
  | none => simp [there] at marked
  | some scope =>
    have bound := (inStep scope (Array.mem_of_getElem? there)).bound (by simpa [there] using marked)
    simpa [Binds, binding?, there, Scope.binds] using bound

/-! ### Which names are marked after a change -/

theorem marks_of_assign (home : ScopeId) :
    (store.update home (·.assign x value)).Marks t y ↔ store.Marks t y := by
  unfold Marks
  rw [marks_update]
  split <;> rfl

/-- A name that was free gets the marker that it is declared with, whatever happened to it
before. -/
theorem marks_of_declare (inStep : store.InStep) (inside : s < store.size)
    (free : ¬ store.Binds s x) :
    (store.update s (·.declare x value constant)).Marks t y ↔
      if t = s ∧ y = x then constant = true else store.Marks t y := by
  unfold Marks
  simp only [marks_declare inside, @eq_comm _ t s, @eq_comm _ y x]
  split
  next here =>
    obtain ⟨rfl, rfl⟩ := here
    have unmarked : store.marks s x = false := by
      simpa [Marks] using mt inStep.binds_of_marks free
    simp [unmarked]
  next elsewhere => simp [elsewhere]

theorem marks_of_delete (home : ScopeId) :
    (store.update home (·.delete x)).Marks t y ↔
      store.Marks t y ∧ ¬ (t = home ∧ y = x) := by
  unfold Marks
  rw [marks_delete, @eq_comm _ t home, @eq_comm _ y x]
  split
  next here => simp [here]
  next elsewhere => simp [elsewhere]

/-! ### When a change is refused -/

theorem declareFault?_eq : store.declareFault? s x =
    if (store.binding? s x).isSome then some (.redeclared x) else none := by
  unfold declareFault? binding?
  cases store.scope? s <;> rfl

theorem declare_error_iff {fault : ScopeFault} :
    store.declare s x value constant = .error fault ↔
      fault = .redeclared x ∧ store.Binds s x := by
  unfold Store.declare Binds
  rw [declareFault?_eq]
  cases (store.binding? s x).isSome <;> simp [eq_comm]

theorem free_of_declare (done : store.declare s x value constant = .ok after) :
    ¬ store.Binds s x := by
  intro bound
  have refused : store.declare s x value constant = .error (.redeclared x) :=
    declare_error_iff.mpr ⟨rfl, bound⟩
  simp [refused] at done

theorem assign_error_iff (ordered : store.Ordered) {fault : ScopeFault} :
    store.assign s x value = .error fault ↔
      fault = .undefined x ∧ (∀ t, store.Outward s t → ¬ store.Binds t x) ∨
      fault = .constant x ∧ ∃ t, store.Clear x s t ∧ store.Binds t x ∧ store.Marks t x := by
  have refused : store.assign s x value = .error fault ↔
      store.assignFault? s x = some fault := by
    unfold Store.assign
    cases store.assignFault? s x <;> simp
  rw [refused, assignFault?, ← resolve_eq_none_iff ordered]
  cases resolved : store.resolve s x with
  | none =>
    -- Where no scope binds the name, there is no nearest one.
    have nowhere : ¬ ∃ t, store.Clear x s t ∧ store.Binds t x ∧ store.Marks t x := by
      rintro ⟨t, clear, bound, -⟩
      have hit := (resolve_eq_some_iff ordered).mpr ⟨clear, bound⟩
      simp [resolved] at hit
    simp only [Option.some.injEq, nowhere, and_false, or_false, and_true]
    exact eq_comm
  | some home =>
    obtain ⟨clear, bound⟩ := (resolve_eq_some_iff ordered).mp resolved
    have nearest : (∃ t, store.Clear x s t ∧ store.Binds t x ∧ store.Marks t x) ↔
        store.Marks home x := by
      constructor
      · rintro ⟨t, clear', bound', marked⟩
        obtain rfl := nearest_unique ordered resolved clear' bound'
        exact marked
      · exact fun marked => ⟨home, clear, bound, marked⟩
    rw [nearest]
    cases marked : store.marks home x <;> simp [Marks, marked, eq_comm]

theorem delete_error_iff (ordered : store.Ordered) {fault : ScopeFault} :
    store.delete s x = .error fault ↔
      fault = .undefined x ∧ ∀ t, store.Outward s t → ¬ store.Binds t x := by
  rw [← resolve_eq_none_iff ordered]
  cases resolved : store.resolve s x <;>
    simp [Store.delete, deleteFault?, resolved, eq_comm]

/-- The scope that an assignment or a deletion which is not refused acts on. -/
theorem resolve_of_assign (done : store.assign s x value = .ok after) :
    ∃ home, store.resolve s x = some home ∧
      after = store.update home (·.assign x value) := by
  obtain ⟨allowed, rfl⟩ := assign_ok_iff.mp done
  cases resolved : store.resolve s x with
  | none => simp [assignFault?, resolved] at allowed
  | some home => exact ⟨home, rfl, updateHome_eq resolved _⟩

theorem resolve_of_delete (done : store.delete s x = .ok after) :
    ∃ home, store.resolve s x = some home ∧ after = store.update home (·.delete x) := by
  obtain ⟨allowed, rfl⟩ := delete_ok_iff.mp done
  cases resolved : store.resolve s x with
  | none => simp [deleteFault?, resolved] at allowed
  | some home => exact ⟨home, rfl, updateHome_eq resolved _⟩

theorem assign_of_unmarked (ordered : store.Ordered) (bound : store.Binds s x)
    (unmarked : ¬ store.Marks s x) (value : Value) :
    ∃ after, store.assign s x value = .ok after := by
  cases done : store.assign s x value with
  | ok after => exact ⟨after, rfl⟩
  | error fault =>
    have here := resolve_of_binds ordered bound
    rcases (assign_error_iff ordered).mp done with ⟨-, free⟩ | ⟨-, t, clear, found, marked⟩
    · exact absurd bound (free s .refl)
    · -- The nearest binding is the one at hand, which is no constant.
      obtain rfl := nearest_unique ordered here clear found
      exact absurd marked unmarked

/-- A name that is free in a scope can be declared there, and then is what the declaration makes of
it: no constant, unless the declaration says so. -/
theorem declare_of_free (ordered : store.Ordered) (inStep : store.InStep) (inside : s < store.size)
    (free : ¬ store.Binds s x) (value : Value) (constant : Bool) :
    ∃ after, store.declare s x value constant = .ok after ∧
      after.binding? s x = some ⟨x, value⟩ ∧ (after.Marks s x ↔ constant = true) ∧
      (constant = false → ∀ last, ∃ reassigned, after.assign s x last = .ok reassigned) := by
  cases done : store.declare s x value constant with
  | error fault => exact absurd (declare_error_iff.mp done).2 free
  | ok after =>
    obtain ⟨-, rfl⟩ := declare_ok_iff.mp done
    have bound : (store.update s (·.declare x value constant)).binding? s x =
        some ⟨x, value⟩ := by
      rw [binding?_declare inside, binding?_eq_none_iff.mpr free, if_pos ⟨rfl, rfl⟩,
        Option.none_or]
    have marker : (store.update s (·.declare x value constant)).Marks s x ↔ constant = true := by
      rw [marks_of_declare inStep inside free, if_pos ⟨rfl, rfl⟩]
    have orderedAfter := ordered.declare s x value constant
    refine ⟨_, rfl, bound, marker, fun unmarked => ?_⟩
    exact assign_of_unmarked orderedAfter (Option.isSome_of_eq_some bound)
      (mt marker.mp (by simp [unmarked]))

/-! ### Look-ups after each change -/

/-- Every scope whose way to the declaring one is clear of the name sees the declaration. -/
theorem lookup_declare_clear (ordered : store.Ordered) (inside : s < store.size)
    (free : ¬ store.Binds s x) (clear : store.Clear x t s) :
    (store.update s (·.declare x value constant)).lookup t x = .ok value := by
  have orderedAfter := ordered.declare s x value constant
  induction clear using Relation.ReflTransGen.head_induction_on with
  | refl =>
    refine lookup_of_binding orderedAfter (b := ⟨x, value⟩) ?_
    rw [binding?_declare inside, binding?_eq_none_iff.mpr free]
    simp
  | @head a p first rest ih =>
    -- The way leads to smaller numbers, so it has not reached the declaring scope yet.
    have before : s ≠ a := (lt_of_le_of_lt ((Clear.outward rest).le ordered) (ordered first.2)).ne
    have freeAfter : ¬ (store.update s (·.declare x value constant)).Binds a x := by
      rw [← binding?_eq_none_iff, binding?_declare inside, binding?_eq_none_iff.mpr first.1]
      simp [before]
    rw [lookup_of_up orderedAfter freeAfter ((parent?_declare a).trans first.2), ih]

theorem lookup_declare_other (ordered : store.Ordered) (inside : s < store.size)
    (other : ¬ (y = x ∧ store.Clear x t s)) :
    (store.update s (·.declare x value constant)).lookup t y = store.lookup t y := by
  by_cases same : y = x
  · -- From a scope whose way to the declaring one is not clear, the search stops on the way.
    subst same
    refine lookup_congr_way (P := fun t => ¬ store.Clear y t s) ordered parent?_declare ?_ ?_
      fun clear => other ⟨rfl, clear⟩
    · intro t far
      have apart : s ≠ t := fun here => far (here ▸ .refl)
      rw [binding?_declare inside]
      simp [apart]
    · exact fun t p far free up clear => far (.head ⟨free, up⟩ clear)
  · refine lookup_congr ordered parent?_declare (fun t => ?_) t
    rw [binding?_declare inside]
    simp [Ne.symm same]

/-- An assignment leaves every name where it is bound. -/
theorem resolve_assign (ordered : store.Ordered) :
    (store.update home (·.assign x value)).resolve t y = store.resolve t y := by
  have orderedAfter := ordered.assign home x value
  induction t using Nat.strongRecOn with
  | ind t ih =>
    rcases way_cases store t y with bound | ⟨free, alone | ⟨p, up⟩⟩
    · rw [resolve_of_binds ordered bound,
        resolve_of_binds orderedAfter (binds_of_assign.mpr bound)]
    · rw [resolve_of_orphan ordered free alone, resolve_of_orphan orderedAfter
        (mt binds_of_assign.mp free) ((parent?_assign t).trans alone)]
    · rw [resolve_of_up ordered free up, resolve_of_up orderedAfter
        (mt binds_of_assign.mp free) ((parent?_assign t).trans up)]
      exact ih p (ordered up)

theorem lookup_assign_same (ordered : store.Ordered) (resolved : store.resolve t x = some home) :
    (store.update home (·.assign x value)).lookup t x = .ok value := by
  obtain ⟨-, bound⟩ := (resolve_eq_some_iff ordered).mp resolved
  obtain ⟨b, found⟩ := Option.isSome_iff_exists.mp bound
  have hit : (store.update home (·.assign x value)).resolve t x = some home :=
    (resolve_assign ordered).trans resolved
  refine lookup_of_resolve hit (b := { b with value }) ?_
  rw [binding?_assign, if_pos ⟨rfl, rfl⟩, found, Option.map_some]

theorem lookup_assign_other (ordered : store.Ordered)
    (other : ¬ (y = x ∧ store.resolve t x = some home)) :
    (store.update home (·.assign x value)).lookup t y = store.lookup t y := by
  have same : (store.update home (·.assign x value)).resolve t y = store.resolve t y :=
    resolve_assign ordered
  cases resolved : store.resolve t y with
  | none => rw [lookup_of_unresolved resolved, lookup_of_unresolved (same.trans resolved)]
  | some found =>
    obtain ⟨-, bound⟩ := (resolve_eq_some_iff ordered).mp resolved
    obtain ⟨b, here⟩ := Option.isSome_iff_exists.mp bound
    -- The binding that the name is resolved to is not the one that was assigned.
    have apart : ¬ (home = found ∧ x = y) := by
      rintro ⟨rfl, rfl⟩
      exact other ⟨rfl, resolved⟩
    rw [lookup_of_resolve resolved here]
    refine lookup_of_resolve (same.trans resolved) ?_
    rw [binding?_assign, if_neg apart, here]

theorem lookup_delete_other (ordered : store.Ordered) (bound : store.Binds home x)
    (other : ¬ (y = x ∧ store.resolve t x = some home)) :
    (store.update home (·.delete x)).lookup t y = store.lookup t y := by
  by_cases same : y = x
  · -- A search that ends elsewhere never comes past the deleting scope, which would end it.
    subst same
    refine lookup_congr_way (P := fun t => store.resolve t y ≠ some home) ordered parent?_delete
      ?_ ?_ fun hit => other ⟨rfl, hit⟩
    · intro t far
      have apart : home ≠ t := fun here => far (here ▸ resolve_of_binds ordered bound)
      rw [binding?_delete, if_neg fun both => apart both.1]
    · exact fun t p far free up hit => far ((resolve_of_up ordered free up).trans hit)
  · refine lookup_congr ordered parent?_delete (fun t => ?_) t
    rw [binding?_delete, if_neg fun both => same both.2.symm]

theorem not_binds_of_delete (store : Store) (home : ScopeId) (x : Bytes) :
    ¬ (store.update home (·.delete x)).Binds home x :=
  fun bound => (binds_of_delete.mp bound).2 ⟨rfl, rfl⟩

/-- Behind a deletion, the next scope further out decides. -/
theorem lookup_delete_same (ordered : store.Ordered) (resolved : store.resolve t x = some home) :
    (store.update home (·.delete x)).lookup t x =
      match store.parent? home with
      | some p => store.lookup p x
      | none => .error (.undefined x) := by
  obtain ⟨clear, bound⟩ := (resolve_eq_some_iff ordered).mp resolved
  have orderedAfter := ordered.delete home x
  clear resolved
  -- The induction is along the clear way; at its end the deleted binding is passed as well.
  induction clear using Relation.ReflTransGen.head_induction_on with
  | refl =>
    have gone := not_binds_of_delete store home x
    cases up : store.parent? home with
    | none => exact lookup_of_orphan orderedAfter gone ((parent?_delete home).trans up)
    | some p =>
      rw [lookup_of_up orderedAfter gone ((parent?_delete home).trans up)]
      -- What stands further out has a smaller number than the deleting scope.
      have further : store.resolve p x ≠ some home := fun hit =>
        (ordered up).not_ge (resolve_le ordered hit)
      exact lookup_delete_other ordered bound fun both => further both.2
  | @head a p first rest ih =>
    have freeAfter : ¬ (store.update home (·.delete x)).Binds a x :=
      fun bound => first.1 (binds_of_delete.mp bound).1
    rw [lookup_of_up orderedAfter freeAfter ((parent?_delete a).trans first.2), ih]

end Store

/-! ### Changes as steps of a machine -/

/-- What a machine makes of a change to its store: it takes the new one, or it fails and stays as it
was. -/
def Machine.commit (machine : Machine) (span : Span) :
    Except ScopeFault Store → EStateM.Result Failure Machine Unit
  | .ok store => .ok () { machine with store }
  | .error fault => .error (.runtime (.scope fault) span) machine

namespace Eval

variable {machine : Machine} {s : ScopeId} {name : Bytes} {span : Span}

theorem declare_eq_commit {value : Value} {constant : Bool} :
    declare s name value constant span machine =
      machine.commit span (machine.store.declare s name value constant) := by
  simp only [declare, updateStore, Store.declare]
  cases machine.store.declareFault? s name <;> rfl

theorem assign_eq_commit {value : Value} :
    assign s name value span machine =
      machine.commit span (machine.store.assign s name value) := by
  simp only [assign, updateStore, Store.assign]
  cases machine.store.assignFault? s name <;> rfl

theorem delete_eq_commit :
    delete s name span machine = machine.commit span (machine.store.delete s name) := by
  simp only [delete, updateStore, Store.delete]
  cases machine.store.deleteFault? s name <;> rfl

end Eval

/-- What every scope of any store that can be built sees after a change made from one of its scopes.

A declaration is refused exactly when the scope itself binds the name; an assignment when no scope
on the way outwards does, or the nearest one that does marks the name constant; a deletion when no
scope on the way does. A refused change fails and leaves the machine as it was.

After an assignment the value is seen by every scope that resolves the name to the same scope, after
a declaration by the scopes whose way to it is clear of the name. Behind a deletion the scopes that
resolved the name to the deleting scope see what the next scope further out sees. No other look-up
changes.

The markers keep up with this. Only names that are bound are marked; a declaration marks its own
name just as it says, an assignment leaves all markers alone, and a deletion removes the one of its
name, so that a name which is declared again there can be assigned unless it is a constant anew. -/
theorem scope_laws {store : Store} (grown : store.Grown) {s : ScopeId} (inside : s < store.size)
    (x : Bytes) (value : Value) (constant : Bool) :
    (∀ t y, store.Marks t y → store.Binds t y) ∧
    (∀ fault, store.declare s x value constant = .error fault ↔
      fault = .redeclared x ∧ store.Binds s x) ∧
    (∀ fault, store.assign s x value = .error fault ↔
      fault = .undefined x ∧ (∀ t, store.Outward s t → ¬ store.Binds t x) ∨
      fault = .constant x ∧ ∃ t, store.Clear x s t ∧ store.Binds t x ∧ store.Marks t x) ∧
    (∀ fault, store.delete s x = .error fault ↔
      fault = .undefined x ∧ ∀ t, store.Outward s t → ¬ store.Binds t x) ∧
    (∀ (machine : Machine) (span : Span), machine.store = store →
      Eval.declare s x value constant span machine =
        machine.commit span (store.declare s x value constant) ∧
      Eval.assign s x value span machine = machine.commit span (store.assign s x value) ∧
      Eval.delete s x span machine = machine.commit span (store.delete s x)) ∧
    (∀ after, store.assign s x value = .ok after → ∀ t y,
      (y = x ∧ store.resolve t x = store.resolve s x → after.lookup t y = .ok value) ∧
      (¬ (y = x ∧ store.resolve t x = store.resolve s x) →
        after.lookup t y = store.lookup t y) ∧
      (after.Marks t y ↔ store.Marks t y)) ∧
    (∀ after, store.declare s x value constant = .ok after → ∀ t y,
      (y = x ∧ store.Clear x t s → after.lookup t y = .ok value) ∧
      (¬ (y = x ∧ store.Clear x t s) → after.lookup t y = store.lookup t y) ∧
      (after.Marks t y ↔ if t = s ∧ y = x then constant = true else store.Marks t y)) ∧
    ∀ after, store.delete s x = .ok after → ∃ home, store.resolve s x = some home ∧
      (∀ t, store.resolve t x = some home → after.lookup t x =
        match store.parent? home with
        | some p => store.lookup p x
        | none => .error (.undefined x)) ∧
      (∀ t y, ¬ (y = x ∧ store.resolve t x = some home) →
        after.lookup t y = store.lookup t y) ∧
      (∀ t y, after.Marks t y ↔ store.Marks t y ∧ ¬ (t = home ∧ y = x)) ∧
      ∀ next marked, ∃ again, after.declare home x next marked = .ok again ∧
        again.binding? home x = some ⟨x, next⟩ ∧ (again.Marks home x ↔ marked = true) ∧
        (marked = false → ∀ last, ∃ reassigned, again.assign home x last = .ok reassigned) := by
  have ordered := grown.ordered
  have inStep := grown.inStep
  refine ⟨fun _ _ => inStep.binds_of_marks, fun _ => Store.declare_error_iff,
    fun _ => Store.assign_error_iff ordered, fun _ => Store.delete_error_iff ordered,
    ?_, ?_, ?_, ?_⟩
  · rintro machine span rfl
    exact ⟨Eval.declare_eq_commit, Eval.assign_eq_commit, Eval.delete_eq_commit⟩
  · intro after done t y
    obtain ⟨home, resolved, rfl⟩ := Store.resolve_of_assign done
    rw [resolved]
    refine ⟨?_, Store.lookup_assign_other ordered, Store.marks_of_assign home⟩
    rintro ⟨rfl, hit⟩
    exact Store.lookup_assign_same ordered hit
  · intro after done t y
    -- It was not refused, so the scope does not bind the name yet.
    have free := Store.free_of_declare done
    obtain ⟨-, rfl⟩ := Store.declare_ok_iff.mp done
    refine ⟨?_, Store.lookup_declare_other ordered inside,
      Store.marks_of_declare inStep inside free⟩
    rintro ⟨rfl, clear⟩
    exact Store.lookup_declare_clear ordered inside free clear
  · intro after done
    have inStepAfter := (Store.Grown.delete grown done).inStep
    obtain ⟨home, resolved, rfl⟩ := Store.resolve_of_delete done
    obtain ⟨-, bound⟩ := (Store.resolve_eq_some_iff ordered).mp resolved
    refine ⟨home, resolved, fun t => Store.lookup_delete_same ordered,
      fun t y => Store.lookup_delete_other ordered bound, fun t y => Store.marks_of_delete home,
      fun next marked => ?_⟩
    -- A declaration in the deleting scope cannot be refused now, and finds no binding to keep.
    have there : home < (store.update home (·.delete x)).size := by
      rw [Store.size_update]
      exact (Store.resolve_le ordered resolved).trans_lt inside
    exact Store.declare_of_free (ordered.delete home x) inStepAfter there
      (Store.not_binds_of_delete store home x) next marked

/-- A global scope that binds `x`, a child that binds it again with a child of its own, and another
child of the global scope. -/
def shadowed : Store :=
  ⟨#[⟨none, [⟨utf8 "x", .bool true⟩], [utf8 "x"]⟩, ⟨some 0, [⟨utf8 "x", .bool false⟩], []⟩,
    ⟨some 1, [], []⟩, ⟨some 0, [], []⟩]⟩

theorem shadowed_laws :
    shadowed.Grown ∧ 2 < shadowed.size ∧
      ∃ after, shadowed.assign 2 (utf8 "x") .null = .ok after ∧
        after.lookup 1 (utf8 "x") = .ok .null ∧ after.lookup 3 (utf8 "x") = .ok (.bool true) := by
  have grown : shadowed.Grown := by
    let global : Store := ⟨#[⟨none, [⟨utf8 "x", .bool true⟩], [utf8 "x"]⟩]⟩
    let first := (global.child 0).2
    let second := (first.child 1).2
    let third := (second.child 0).2
    have bound : Store.empty.declare 0 (utf8 "x") (.bool true) true = .ok global := rfl
    have again : third.declare 1 (utf8 "x") (.bool false) false = .ok shadowed := rfl
    have grownFirst : first.Grown := .child (.declare (.root .empty) bound) (by decide)
    have grownThird : third.Grown := .child (.child grownFirst (by decide)) (by decide)
    exact grownThird.declare again
  have inside : 2 < shadowed.size := by decide
  have nearest : shadowed.resolve 2 (utf8 "x") = some 1 := by cbv
  obtain ⟨after, done⟩ : ∃ after, shadowed.assign 2 (utf8 "x") .null = .ok after :=
    ⟨_, by cbv⟩
  obtain ⟨-, -, -, -, -, seen, -, -⟩ := scope_laws grown inside (utf8 "x") .null false
  refine ⟨grown, inside, after, done, (seen after done 1 _).1 ⟨rfl, ?_⟩, ?_⟩
  · rw [nearest]
    cbv
  · rw [(seen after done 3 _).2.1 fun same => ?_]
    · cbv
    · -- The other child sees the global binding.
      have apart : shadowed.resolve 3 (utf8 "x") = some 0 := by cbv
      rw [apart, nearest] at same
      exact absurd same.2 (by decide)

end Tide
