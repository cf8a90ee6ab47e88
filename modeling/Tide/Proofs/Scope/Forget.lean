import Mathlib
import Tide.Eval.Run
import Tide.Proofs.Scope.Likeness
import Tide.Proofs.Value.Forget

/-!
# Machines without the places of their code

Forgetting goes on from values into the scopes that bind them. A store is like what is left of it,
and like nothing else.
-/
namespace Tide

variable (width : Int → Int)

def Binding.forget (b : Binding) : Binding := { b with value := b.value.forget width }

def Scope.forget (scope : Scope) : Scope :=
  { scope with bindings := scope.bindings.map (Binding.forget width) }

def Store.forget (store : Store) : Store := ⟨store.scopes.map (Scope.forget width)⟩

def Machine.forget (machine : Machine) : Machine :=
  { machine with store := machine.store.forget width }

theorem Binding.like_forget_iff {b c : Binding} :
    b.Like (fun x y => y = x.forget width) c ↔ c = b.forget width := by
  constructor
  · rintro ⟨name, value⟩
    rw [Binding.forget, name, ← value]
  · rintro rfl
    exact ⟨rfl, rfl⟩

theorem Scope.like_forget_iff {scope scope' : Scope} :
    scope.Like (fun x y => y = x.forget width) scope' ↔ scope' = scope.forget width := by
  have bindings : List.Forall₂ (Binding.Like fun x y => y = x.forget width) scope.bindings
      scope'.bindings ↔ scope'.bindings = scope.bindings.map (Binding.forget width) :=
    forall₂_image (@Binding.like_forget_iff width)
  constructor
  · rintro ⟨parent, pairs, constants⟩
    rw [Scope.forget, parent, constants, ← bindings.mp pairs]
  · rintro rfl
    exact ⟨rfl, bindings.mpr rfl, rfl⟩

/-- Scopes and what is left of them, in the same order. -/
abbrev ScopeLikeness.forgetting : ScopeLikeness fun a b => b = Value.forget width a := .inOrder _

namespace Store

variable (store : Store) (s : ScopeId)

theorem scope?_forget :
    (store.forget width).scope? s = (store.scope? s).map (Scope.forget width) := by
  simp [scope?, forget]

theorem like_forget : store.Like (.forgetting width) (store.forget width) := by
  refine ⟨by simp [forget], fun s => ?_⟩
  rw [scope?_forget]
  cases store.scope? s with
  | none => exact .none
  | some scope => exact .some ((Scope.like_forget_iff width).mpr rfl)

theorem like_forget_iff {store' : Store} :
    store.Like (.forgetting width) store' ↔ store' = store.forget width := by
  constructor
  · intro like
    have scopes (s : ScopeId) : store'.scope? s = (store.forget width).scope? s := by
      rw [scope?_forget]
      rcases rel_cases (like.scope s) with ⟨left, right⟩ | ⟨scope, scope', left, right, pair⟩
      · rw [left, right]
        rfl
      · rw [left, right, (Scope.like_forget_iff width).mp pair]
        rfl
    have same : store'.scopes = (store.forget width).scopes := Array.ext_getElem? scopes
    cases store'
    exact congrArg Store.mk same
  · rintro rfl
    exact like_forget width store

theorem names_forget : (store.forget width).names s = store.names s := by
  have each (scope : Scope) : (scope.forget width).names = scope.names := by
    simp [Scope.names, Scope.forget, Function.comp_def, Binding.forget]
  simp only [names, scope?_forget]
  cases store.scope? s <;> simp [each]

end Store

/-- Machines that agree but for the places of their code show the same global names. -/
theorem Machine.globals_forget (machine : Machine) :
    (machine.forget width).globals = machine.globals := by
  simp only [globals, forget, Store.names_forget, Store.lookup]
  congr 1
  funext name
  rcases rel_cases ((machine.store.like_forget width).find? Store.globalScope name) with
    ⟨left, right⟩ | ⟨b, c, left, right, same⟩
  · rw [left, right]
  · have alike : c.2.value = b.2.value.forget width := same.2.alike
    simp only [left, right, alike, Value.render_forget]

end Tide
