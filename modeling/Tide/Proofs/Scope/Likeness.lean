import Mathlib
import Tide.Proofs.Scope.Values

/-!
# Stores that are alike

Two stores are alike when they have the same scopes with the same names, and values that are alike
under these names. Names are resolved, bound and removed without regard to values, so each operation
does the same to both. Whether the order of the names is to be the same is up to the likeness of
scopes; there are two of them.
-/
namespace Tide

/-- The same name with a value that is alike. -/
structure Binding.Like (value : Value → Value → Prop) (b c : Binding) : Prop where
  name : b.name = c.name
  alike : value b.value c.value

/-- When scopes are alike, given when values are. All changes have to keep it. -/
structure ScopeLikeness (value : Value → Value → Prop) where
  scope : Scope → Scope → Prop
  parent {s t : Scope} (like : scope s t) : s.parent = t.parent
  find? {s t : Scope} (like : scope s t) (name : Bytes) :
    Option.Rel (Binding.Like value) (s.find? name) (t.find? name)
  marks {s t : Scope} (like : scope s t) (name : Bytes) : s.marks name = t.marks name
  empty (parent : Option ScopeId) : scope ⟨parent, [], []⟩ ⟨parent, [], []⟩
  declare {s t : Scope} {a b : Value} (like : scope s t) (name : Bytes) (alike : value a b)
    (constant : Bool) : scope (s.declare name a constant) (t.declare name b constant)
  assign {s t : Scope} {a b : Value} (like : scope s t) (name : Bytes) (alike : value a b) :
    scope (s.assign name a) (t.assign name b)
  delete {s t : Scope} (like : scope s t) (name : Bytes) : scope (s.delete name) (t.delete name)

/-- The same scopes under the same numbers. -/
structure Store.Like {value : Value → Value → Prop} (L : ScopeLikeness value)
    (store store' : Store) : Prop where
  size : store.scopes.size = store'.scopes.size
  scope (s : ScopeId) : Option.Rel L.scope (store.scope? s) (store'.scope? s)

theorem rel_cases {α β : Type} {r : α → β → Prop} {x : Option α} {y : Option β}
    (related : Option.Rel r x y) :
    x = none ∧ y = none ∨ ∃ a b, x = some a ∧ y = some b ∧ r a b := by
  cases related with
  | none => exact .inl ⟨rfl, rfl⟩
  | some pair => exact .inr ⟨_, _, rfl, rfl, pair⟩

theorem rel_map {α β γ δ : Type} {r : α → β → Prop} {r' : γ → δ → Prop} {x : Option α}
    {y : Option β} {f : α → γ} {g : β → δ} (related : Option.Rel r x y)
    (maps : ∀ a b, r a b → r' (f a) (g b)) : Option.Rel r' (x.map f) (y.map g) := by
  cases related with
  | none => exact .none
  | some pair => exact .some (maps _ _ pair)

variable {value : Value → Value → Prop}

/-! ### Scopes with the same names in the same order -/

structure Scope.Like (value : Value → Value → Prop) (scope scope' : Scope) : Prop where
  parent : scope.parent = scope'.parent
  bindings : List.Forall₂ (Binding.Like value) scope.bindings scope'.bindings
  constants : scope.constants = scope'.constants

namespace Scope.Like

variable {scope scope' : Scope} (like : scope.Like value scope')

include like

theorem find? (name : Bytes) :
    Option.Rel (Binding.Like value) (scope.find? name) (scope'.find? name) := by
  obtain ⟨parent, bindings, constants⟩ := scope
  obtain ⟨parent', bindings', constants'⟩ := scope'
  have pairs : List.Forall₂ (Binding.Like value) bindings bindings' := like.bindings
  simp only [Scope.find?]
  clear like
  induction pairs with
  | nil => exact .none
  | cons first _ ih =>
    simp only [List.find?_cons, first.name]
    split
    · exact .some first
    · exact ih

theorem marks (name : Bytes) : scope.marks name = scope'.marks name := by
  rw [Scope.marks, Scope.marks, like.constants]

theorem declare (name : Bytes) {a b : Value} (alike : value a b) (constant : Bool) :
    (scope.declare name a constant).Like value (scope'.declare name b constant) where
  parent := like.parent
  bindings := List.rel_append like.bindings (.cons ⟨rfl, alike⟩ .nil)
  constants := by rw [Scope.declare, Scope.declare, like.constants]

theorem assign (name : Bytes) {a b : Value} (alike : value a b) :
    (scope.assign name a).Like value (scope'.assign name b) := by
  refine ⟨like.parent, ?_, like.constants⟩
  refine List.forall₂_map_left_iff.mpr (List.forall₂_map_right_iff.mpr (like.bindings.imp ?_))
  intro old old' pair
  rw [pair.name]
  split
  · exact ⟨rfl, alike⟩
  · exact pair

theorem delete (name : Bytes) : (scope.delete name).Like value (scope'.delete name) := by
  obtain ⟨parent, bindings, constants⟩ := scope
  obtain ⟨parent', bindings', constants'⟩ := scope'
  have same : constants = constants' := like.constants
  refine ⟨like.parent, ?_, by rw [Scope.delete, Scope.delete, same]⟩
  have pairs : List.Forall₂ (Binding.Like value) bindings bindings' := like.bindings
  simp only [Scope.delete]
  clear like
  induction pairs with
  | nil => exact .nil
  | cons first _ ih =>
    simp only [List.filter_cons, first.name]
    split
    · exact .cons first ih
    · exact ih

end Scope.Like

def ScopeLikeness.inOrder (value : Value → Value → Prop) : ScopeLikeness value where
  scope := Scope.Like value
  parent like := like.parent
  find? like := like.find?
  marks like name := like.marks name
  empty _ := ⟨rfl, .nil, rfl⟩
  declare like name alike constant := like.declare name alike constant
  assign like name alike := like.assign name alike
  delete like name := like.delete name

/-! ### Scopes with the same names in any order -/

/-- Under each name the same is found, and the same names are marked. -/
structure Scope.Same (value : Value → Value → Prop) (scope scope' : Scope) : Prop where
  parent : scope.parent = scope'.parent
  find? (name : Bytes) : Option.Rel (Binding.Like value) (scope.find? name) (scope'.find? name)
  marks (name : Bytes) : scope.marks name = scope'.marks name

namespace Scope.Same

variable {scope scope' : Scope} (same : scope.Same value scope') {a b : Value}

include same

theorem declare (name : Bytes) (alike : value a b) (constant : Bool) :
    (scope.declare name a constant).Same value (scope'.declare name b constant) := by
  refine ⟨same.parent, fun x => ?_, fun x => by rw [marks_declare, marks_declare, same.marks]⟩
  rw [find?_declare, find?_declare]
  rcases rel_cases (same.find? x) with ⟨left, right⟩ | ⟨old, old', left, right, pair⟩
  · rw [left, right, Option.none_or, Option.none_or]
    split
    · exact .some ⟨rfl, alike⟩
    · exact .none
  · rw [left, right]
    exact .some pair

theorem assign (name : Bytes) (alike : value a b) :
    (scope.assign name a).Same value (scope'.assign name b) := by
  refine ⟨same.parent, fun x => ?_, same.marks⟩
  rw [find?_assign, find?_assign]
  refine rel_map (same.find? x) fun old old' pair => ?_
  rw [pair.name]
  split
  · exact ⟨rfl, alike⟩
  · exact pair

theorem delete (name : Bytes) : (scope.delete name).Same value (scope'.delete name) := by
  refine ⟨same.parent, fun x => ?_, fun x => by rw [marks_delete, marks_delete, same.marks]⟩
  rw [find?_delete, find?_delete]
  split
  · exact .none
  · exact same.find? x

end Scope.Same

def ScopeLikeness.anyOrder (value : Value → Value → Prop) : ScopeLikeness value where
  scope := Scope.Same value
  parent same := same.parent
  find? same := same.find?
  marks same := same.marks
  empty _ := ⟨rfl, fun _ => .none, fun _ => rfl⟩
  declare same name alike constant := same.declare name alike constant
  assign same name alike := same.assign name alike
  delete same name := same.delete name

/-- Each scope is like itself only. -/
def ScopeLikeness.same : ScopeLikeness Eq where
  scope := Eq
  parent same := by rw [same]
  find? {s t} same name := by
    rw [same]
    cases t.find? name with
    | none => exact .none
    | some binding => exact .some ⟨rfl, rfl⟩
  marks same name := by rw [same]
  empty _ := rfl
  declare same _ alike _ := by rw [same, alike]
  assign same _ alike := by rw [same, alike]
  delete same _ := by rw [same]

theorem ScopeLikeness.binds (L : ScopeLikeness value) {scope scope' : Scope}
    (like : L.scope scope scope') (name : Bytes) : scope.binds name = scope'.binds name := by
  unfold Scope.binds
  rcases rel_cases (L.find? like name) with ⟨left, right⟩ | ⟨b, c, left, right, -⟩
  · rw [left, right]
  · rw [left, right]
    rfl

/-! ### Stores -/

theorem Store.like_same_iff {store store' : Store} :
    store.Like .same store' ↔ store = store' := by
  constructor
  · rintro ⟨-, scopes⟩
    have each (s : ScopeId) : store.scopes[s]? = store'.scopes[s]? := by
      rcases rel_cases (scopes s) with ⟨left, right⟩ | ⟨scope, scope', left, right, pair⟩
      · exact left.trans right.symm
      · have same : scope = scope' := pair
        exact left.trans (same ▸ right.symm)
    cases store
    exact congrArg Store.mk (Array.ext_getElem? each)
  · rintro rfl
    refine ⟨rfl, fun s => ?_⟩
    cases store.scope? s with
    | none => exact .none
    | some scope => exact .some rfl

/-- A store with values that are like themselves is like itself. -/
theorem Store.All.like {store : Store} (held : store.All fun a => value a a) :
    store.Like (.anyOrder value) store := by
  refine ⟨rfl, fun s => ?_⟩
  cases there : store.scope? s with
  | none => exact .none
  | some scope =>
    refine .some ⟨rfl, fun name => ?_, fun _ => rfl⟩
    cases found : scope.find? name with
    | none => exact .none
    | some binding =>
      have bound : binding ∈ scope.bindings := List.mem_of_find?_eq_some found
      exact .some ⟨rfl, held.scope? there binding bound⟩

namespace Store.Like

variable {L : ScopeLikeness value} {store store' : Store} (like : store.Like L store')

include like

theorem resolve (s : ScopeId) (name : Bytes) : store.resolve s name = store'.resolve s name := by
  -- The parent of a scope has a smaller number, or the search ends.
  induction s using Nat.strongRecOn with
  | ind s ih =>
    rw [Store.resolve, Store.resolve]
    rcases rel_cases (like.scope s) with ⟨left, right⟩ | ⟨scope, scope', left, right, pair⟩
    · rw [left, right]
    · simp only [left, right, L.binds pair name, L.parent pair]
      split
      · rfl
      · cases scope'.parent with
        | none => rfl
        | some p =>
          simp only
          split
          next closer => exact ih p closer
          next => rfl

theorem marks (s : ScopeId) (name : Bytes) : store.marks s name = store'.marks s name := by
  unfold Store.marks
  rcases rel_cases (like.scope s) with ⟨left, right⟩ | ⟨scope, scope', left, right, pair⟩
  · rw [left, right]
  · simp only [left, right, Option.map_some, L.marks pair]

theorem find? (s : ScopeId) (name : Bytes) :
    Option.Rel (fun x y => x.1 = y.1 ∧ Binding.Like value x.2 y.2) (store.find? s name)
      (store'.find? s name) := by
  simp only [Store.find?, like.resolve, Option.bind_eq_bind]
  cases store'.resolve s name with
  | none => exact .none
  | some home =>
    simp only [Option.bind_some]
    rcases rel_cases (like.scope home) with ⟨left, right⟩ | ⟨scope, scope', left, right, pair⟩
    · rw [left, right]
      exact .none
    · rw [left, right]
      simp only [Option.bind_some]
      rcases rel_cases (L.find? pair name) with ⟨left, right⟩ | ⟨b, c, left, right, same⟩
      · rw [left, right]
        exact .none
      · rw [left, right]
        exact .some ⟨rfl, same⟩

theorem declareFault? (s : ScopeId) (name : Bytes) :
    store.declareFault? s name = store'.declareFault? s name := by
  unfold Store.declareFault?
  rcases rel_cases (like.scope s) with ⟨left, right⟩ | ⟨scope, scope', left, right, pair⟩
  · rw [left, right]
  · simp only [left, right, Option.map_some, L.binds pair]

theorem assignFault? (s : ScopeId) (name : Bytes) :
    store.assignFault? s name = store'.assignFault? s name := by
  simp only [Store.assignFault?, like.resolve, like.marks]

theorem deleteFault? (s : ScopeId) (name : Bytes) :
    store.deleteFault? s name = store'.deleteFault? s name := by
  simp only [Store.deleteFault?, like.resolve]

theorem update {f g : Scope → Scope}
    (changes : ∀ scope scope' : Scope, L.scope scope scope' → L.scope (f scope) (g scope'))
    (s : ScopeId) : (store.update s f).Like L (store'.update s g) := by
  refine ⟨by simpa [Store.update] using like.size, fun t => ?_⟩
  simp only [Store.scope?, Store.update, Array.getElem?_modify]
  split
  · change Option.Rel _ ((store.scope? t).map f) ((store'.scope? t).map g)
    exact rel_map (like.scope t) changes
  · exact like.scope t

theorem updateHome {f g : Scope → Scope}
    (changes : ∀ scope scope' : Scope, L.scope scope scope' → L.scope (f scope) (g scope'))
    (s : ScopeId) (name : Bytes) :
    (store.updateHome s name f).Like L (store'.updateHome s name g) := by
  simp only [Store.updateHome, like.resolve]
  split
  · exact like.update changes _
  · exact like

theorem child (parent : ScopeId) :
    (store.child parent).1 = (store'.child parent).1 ∧
      (store.child parent).2.Like L (store'.child parent).2 := by
  refine ⟨like.size, by simp [Store.child, like.size], fun s => ?_⟩
  simp only [Store.child, Store.scope?, Array.getElem?_push, like.size]
  split
  · exact .some (L.empty _)
  · exact like.scope s

end Store.Like
end Tide
