import Mathlib
import Tide.Proofs.Scope.Values
import Tide.Proofs.Value.Held

/-!
# Well-formed stores

A store is well formed when parents come before their children and only the global scope has none,
when closures were made in scopes that exist, and when the two maps of every scope are in step. Each
of the changes to a store keeps this, and in a well-formed store the way outwards from any scope
ends at the global one.

The maps are in step when no name is bound twice and every name that is marked is bound. A
declaration marks the name that it binds, an assignment does not touch the markers, and a deletion
takes the marker away together with the binding. A marker that stayed behind would come back to life
with the next declaration of the name, since that one does not take markers away.
-/
namespace Tide

namespace Scope

/-- The values and the markers of a scope are in step. -/
structure InStep (scope : Scope) : Prop where
  distinct : (scope.bindings.map (·.name)).Nodup
  bound {name : Bytes} (marked : scope.marks name = true) : scope.binds name = true

variable {scope : Scope} {name x : Bytes}

theorem binds_eq_false_iff : scope.binds name = false ↔ ∀ b ∈ scope.bindings, b.name ≠ name := by
  simp [binds, find?]

theorem find?_of_binds (bound : scope.binds name = true) :
    ∃ value, scope.find? name = some ⟨name, value⟩ := by
  obtain ⟨⟨other, value⟩, found⟩ := Option.isSome_iff_exists.mp bound
  obtain rfl : other = name := by simpa using List.find?_some found
  exact ⟨value, found⟩

theorem binds_declare (value : Value) (constant : Bool) :
    (scope.declare name value constant).binds x = (scope.binds x || decide (name = x)) := by
  by_cases same : name = x <;> simp [binds, find?_declare, same]

theorem binds_assign (value : Value) : (scope.assign name value).binds x = scope.binds x := by
  simp [binds, find?_assign]

theorem binds_delete :
    (scope.delete name).binds x = if name = x then false else scope.binds x := by
  by_cases same : name = x <;> simp [binds, find?_delete, same]

theorem inStep_empty (parent : Option ScopeId) : (Scope.mk parent [] []).InStep :=
  ⟨List.nodup_nil, fun marked => by simp [marks] at marked⟩

namespace InStep

variable (inStep : scope.InStep)

include inStep

theorem declare (fresh : scope.binds name = false) (value : Value) (constant : Bool) :
    (scope.declare name value constant).InStep where
  distinct := by
    have other : name ∉ scope.bindings.map (·.name) := by
      simpa [eq_comm] using binds_eq_false_iff.mp fresh
    simpa [Scope.declare, List.nodup_append] using ⟨inStep.distinct, by simpa using other⟩
  bound := by
    intro x marked
    rw [marks_declare, Bool.or_eq_true] at marked
    rw [binds_declare, Bool.or_eq_true]
    rcases marked with before | now
    · exact .inl (inStep.bound before)
    · exact .inr (Bool.and_eq_true_iff.mp now).2

theorem assign (value : Value) : (scope.assign name value).InStep where
  distinct := by
    have sameNames : (scope.assign name value).bindings.map (·.name) =
        scope.bindings.map (·.name) := by
      simp only [Scope.assign, List.map_map]
      refine List.map_congr_left fun b _ => ?_
      simp only [Function.comp_apply]
      split <;> rfl
    rw [sameNames]
    exact inStep.distinct
  bound := by
    intro x marked
    rw [marks_assign] at marked
    rw [binds_assign]
    exact inStep.bound marked

theorem delete : (scope.delete name).InStep where
  distinct := inStep.distinct.sublist (List.filter_sublist.map _)
  bound := by
    intro x marked
    rw [marks_delete] at marked
    rw [binds_delete]
    split at marked
    · cases marked
    next other =>
      rw [if_neg other]
      exact inStep.bound marked

end InStep
end Scope

namespace Store

/-- One scope further out. -/
def Up (store : Store) (s p : ScopeId) : Prop := store.parent? s = some p

/-- The maps of every scope are in step. -/
def InStep (store : Store) : Prop := ∀ scope ∈ store.scopes, scope.InStep

structure WellFormed (store : Store) : Prop where
  nonempty : 0 < store.size
  parent_lt {s p : ScopeId} (up : store.Up s p) : p < s
  orphan {s : ScopeId} (inside : s < store.size) (alone : store.parent? s = none) :
    s = globalScope
  captured : store.All fun value => ∀ s, value.Captures s → s < store.size
  inStep : store.InStep

/-- The scopes that were there are still there, with the parents that they had. -/
structure Extends (older newer : Store) : Prop where
  size : older.size ≤ newer.size
  parent {s : ScopeId} (inside : s < older.size) : newer.parent? s = older.parent? s

variable {store : Store} {s : ScopeId} {name : Bytes}

theorem parent?_update {f : Scope → Scope} (keeps : ∀ scope, (f scope).parent = scope.parent)
    (t : ScopeId) : (store.update s f).parent? t = store.parent? t := by
  unfold parent?
  rw [scope?_update]
  split
  · cases store.scope? t with
    | none => rfl
    | some scope => exact keeps scope
  · rfl

theorem parent?_child (parent t : ScopeId) :
    (store.child parent).2.parent? t =
      if t = store.size then some parent else store.parent? t := by
  unfold parent?
  rw [scope?_child]
  split <;> rfl

/-- Changing one scope keeps what all scopes have, if it does so for that scope. -/
theorem forall_update {Q : Scope → Prop} {f : Scope → Scope}
    (held : ∀ scope ∈ store.scopes, Q scope)
    (keeps : ∀ scope, store.scope? s = some scope → Q scope → Q (f scope)) :
    ∀ scope ∈ (store.update s f).scopes, Q scope := by
  intro scope member
  obtain ⟨t, inside, rfl⟩ := Array.mem_iff_getElem.mp member
  have old : t < store.scopes.size := by simpa [update] using inside
  simp only [update, Array.getElem_modify]
  split
  next here =>
    subst here
    exact keeps _ (Array.getElem?_eq_getElem old) (held _ (Array.getElem_mem old))
  next => exact held _ (Array.getElem_mem old)

namespace InStep

variable {value : Value} {constant : Bool} (inStep : store.InStep)

include inStep

theorem push (parent : Option ScopeId) : InStep ⟨store.scopes.push ⟨parent, [], []⟩⟩ := by
  intro scope member
  rcases Array.mem_push.mp member with member | rfl
  · exact inStep scope member
  · exact Scope.inStep_empty parent

theorem declare (allowed : store.declareFault? s name = none) :
    (store.update s (·.declare name value constant)).InStep := by
  refine forall_update inStep fun scope there held => ?_
  have fresh : scope.binds name = false := by simpa [declareFault?, there] using allowed
  exact held.declare fresh value constant

theorem updateHome {f : Scope → Scope} (keeps : ∀ scope, scope.InStep → (f scope).InStep) :
    (store.updateHome s name f).InStep := by
  unfold Store.updateHome
  split
  · exact forall_update inStep fun scope _ => keeps scope
  · exact inStep

theorem assign : (store.updateHome s name (·.assign name value)).InStep :=
  inStep.updateHome fun _ held => held.assign value

theorem delete : (store.updateHome s name (·.delete name)).InStep :=
  inStep.updateHome fun _ held => held.delete

end InStep

namespace Extends

theorem refl (store : Store) : store.Extends store := ⟨le_rfl, fun _ => rfl⟩

theorem trans {first second third : Store} (one : first.Extends second)
    (two : second.Extends third) : first.Extends third :=
  ⟨one.size.trans two.size, fun inside =>
    (two.parent (inside.trans_le one.size)).trans (one.parent inside)⟩

theorem update {f : Scope → Scope} (keeps : ∀ scope, (f scope).parent = scope.parent) :
    store.Extends (store.update s f) :=
  ⟨(size_update ..).ge, fun _ => parent?_update keeps _⟩

theorem updateHome {f : Scope → Scope} (keeps : ∀ scope, (f scope).parent = scope.parent) :
    store.Extends (store.updateHome s name f) := by
  unfold Store.updateHome
  split
  · exact update keeps
  · exact refl store

theorem child (parent : ScopeId) : store.Extends (store.child parent).2 :=
  ⟨(Nat.le_succ _).trans (size_child ..).ge, fun inside => by rw [parent?_child, if_neg inside.ne]⟩

end Extends

namespace WellFormed

variable (wellFormed : store.WellFormed)

include wellFormed

theorem parent?_global : store.parent? globalScope = none := by
  cases up : store.parent? globalScope with
  | none => rfl
  | some p => exact absurd (wellFormed.parent_lt up) (Nat.not_lt_zero p)

/-- Following parents ends at the global scope, wherever it starts. -/
theorem reaches_global (inside : s < store.size) :
    Relation.ReflTransGen store.Up s globalScope := by
  -- Parents have smaller numbers, so the induction is on the number of the scope.
  induction s using Nat.strongRecOn with
  | ind s ih =>
    cases up : store.parent? s with
    | none =>
      rw [wellFormed.orphan inside up]
    | some p =>
      have closer : p < s := wellFormed.parent_lt up
      exact .head up (ih p closer (closer.trans inside))

theorem update {f : Scope → Scope} (parents : ∀ scope, (f scope).parent = scope.parent)
    (values : ∀ scope : Scope, (scope.All fun value => ∀ t, value.Captures t → t < store.size) →
      (f scope).All fun value => ∀ t, value.Captures t → t < store.size)
    (maps : (store.update s f).InStep) :
    (store.update s f).WellFormed where
  nonempty := by rw [size_update]; exact wellFormed.nonempty
  parent_lt up := by
    unfold Up at up
    rw [parent?_update parents] at up
    exact wellFormed.parent_lt up
  orphan inside alone := by
    rw [size_update] at inside
    rw [parent?_update parents] at alone
    exact wellFormed.orphan inside alone
  captured := by
    rw [size_update]
    exact wellFormed.captured.update values
  inStep := maps

theorem updateHome {f : Scope → Scope} (parents : ∀ scope, (f scope).parent = scope.parent)
    (values : ∀ scope : Scope, (scope.All fun value => ∀ t, value.Captures t → t < store.size) →
      (f scope).All fun value => ∀ t, value.Captures t → t < store.size)
    (maps : (store.updateHome s name f).InStep) : (store.updateHome s name f).WellFormed := by
  unfold Store.updateHome at maps ⊢
  split at maps
  next home _ => exact wellFormed.update parents values maps
  next => exact wellFormed

theorem declare {value : Value} {constant : Bool}
    (given : ∀ t, value.Captures t → t < store.size)
    (allowed : store.declareFault? s name = none) :
    (store.update s (·.declare name value constant)).WellFormed :=
  wellFormed.update (fun _ => rfl) (fun _ held => held.declare given)
    (wellFormed.inStep.declare allowed)

theorem assign {value : Value} (given : ∀ t, value.Captures t → t < store.size) :
    (store.updateHome s name (·.assign name value)).WellFormed :=
  wellFormed.updateHome (fun _ => rfl) (fun _ held => held.assign given) wellFormed.inStep.assign

theorem delete : (store.updateHome s name (·.delete name)).WellFormed :=
  wellFormed.updateHome (fun _ => rfl) (fun _ held => held.delete) wellFormed.inStep.delete

theorem child {parent : ScopeId} (inside : parent < store.size) :
    (store.child parent).2.WellFormed where
  nonempty := by
    rw [size_child]
    exact Nat.succ_pos _
  parent_lt := by
    intro s p up
    unfold Up at up
    rw [parent?_child] at up
    split at up
    next new =>
      -- The new scope gets the next number, which is larger than that of any scope there is.
      obtain rfl : parent = p := Option.some.inj up
      exact new ▸ inside
    next => exact wellFormed.parent_lt up
  orphan := by
    intro s bounded alone
    rw [size_child] at bounded
    rw [parent?_child] at alone
    split at alone
    next => cases alone
    next old => exact wellFormed.orphan (Nat.lt_of_le_of_ne (Nat.lt_succ_iff.mp bounded) old) alone
  captured := by
    rw [size_child]
    exact wellFormed.captured.child.mono fun _ within t captured =>
      (within t captured).trans (Nat.lt_succ_self _)
  inStep := wellFormed.inStep.push (some parent)

end WellFormed

theorem wellFormed_initial : initial.WellFormed where
  nonempty := Nat.one_pos
  parent_lt := by
    intro s p up
    cases s with
    | zero => cases up
    | succ s => cases up
  orphan inside _ := Nat.lt_one_iff.mp inside
  captured := .initial nofun nofun nofun
  inStep := by
    refine forall_update (Q := Scope.InStep) ?_ fun scope there _ => ?_
    · intro scope member
      obtain rfl : scope = ⟨none, [], []⟩ := by simpa [empty] using member
      exact Scope.inStep_empty _
    · obtain rfl : scope = ⟨none, [], []⟩ := by
        simpa [empty, scope?, globalScope, eq_comm] using there
      simp only [builtins, List.map_cons, List.map_nil, List.cons_append, List.nil_append,
        List.foldl_cons, List.foldl_nil]
      -- The built-in names differ from each other, so none of them is bound when it is declared.
      exact ((((((Scope.inStep_empty none).declare (by decide) _ _).declare (by decide) _ _).declare
        (by decide) _ _).declare (by decide) _ _).declare (by decide) _ _).declare (by decide) _ _

end Store
end Tide
