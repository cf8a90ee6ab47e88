import Tide.Scope.Store

/-!
# What the scopes of a store hold

What is found under a name after each of the changes to a scope, and what the changes keep.
`Store.All` says that every value bound in any scope has a property. Looking a name up gives a value
with that property, and each of the changes keeps it, provided that a value which is put in has it.
-/
namespace Tide

namespace Scope

variable (scope : Scope) (name x : Bytes) (value : Value)

theorem find?_declare (constant : Bool) :
    (scope.declare name value constant).find? x =
      (scope.find? x).or (if name = x then some ⟨name, value⟩ else none) := by
  simp only [find?, declare, List.find?_append, List.find?_singleton, decide_eq_true_eq]

theorem find?_assign :
    (scope.assign name value).find? x =
      (scope.find? x).map fun b => if b.name = name then { b with value } else b := by
  have sameName (b : Binding) : (if b.name = name then { b with value } else b).name = b.name := by
    split <;> rfl
  simp only [find?, assign, List.find?_map, Function.comp_def, sameName]

theorem find?_delete :
    (scope.delete name).find? x = if name = x then none else scope.find? x := by
  simp only [find?, delete, List.find?_filter]
  by_cases same : name = x
  · subst same
    simp
  · rw [if_neg same]
    congr 1
    funext b
    by_cases named : b.name = x
    · simp [named, Ne.symm same]
    · simp [named]

theorem marks_declare (constant : Bool) :
    (scope.declare name value constant).marks x =
      (scope.marks x || constant && decide (name = x)) := by
  cases constant with
  | false => simp [marks, declare]
  | true => simp [marks, declare, List.mem_insert_iff, Bool.or_comm, eq_comm]

theorem marks_assign : (scope.assign name value).marks x = scope.marks x := rfl

theorem marks_delete :
    (scope.delete name).marks x = if name = x then false else scope.marks x := by
  by_cases same : name = x
  · simp [marks, delete, same]
  · simp [marks, delete, same, Ne.symm same]

end Scope

/-! ### The scopes of a store after each change -/

def Store.size (store : Store) : Nat := store.scopes.size

namespace Store

variable (store : Store) (s t : ScopeId) (f : Scope → Scope)

@[simp] theorem size_update : (store.update s f).size = store.size :=
  Array.size_modify

@[simp] theorem size_updateHome (name : Bytes) :
    (store.updateHome s name f).size = store.size := by
  unfold updateHome
  split
  · exact size_update ..
  · rfl

@[simp] theorem size_child (parent : ScopeId) :
    (store.child parent).2.size = store.size + 1 :=
  Array.size_push _

theorem scope?_update :
    (store.update s f).scope? t = if s = t then (store.scope? t).map f else store.scope? t :=
  Array.getElem?_modify

theorem marks_update {s t : ScopeId} (f : Scope → Scope) (name : Bytes) :
    (store.update s f).marks t name =
      if s = t then ((store.scope? t).map fun scope => (f scope).marks name).getD false
      else store.marks t name := by
  unfold marks
  rw [scope?_update]
  split
  · rw [Option.map_map]
    rfl
  · rfl

theorem scope?_child (parent : ScopeId) :
    (store.child parent).2.scope? t =
      if t = store.size then some ⟨some parent, [], []⟩ else store.scope? t :=
  Array.getElem?_push

end Store

/-! ### Properties of all values in a store -/

def Scope.All (P : Value → Prop) (scope : Scope) : Prop := ∀ b ∈ scope.bindings, P b.value

def Store.All (P : Value → Prop) (store : Store) : Prop :=
  ∀ scope ∈ store.scopes, scope.All P

variable {P : Value → Prop}

namespace Scope

variable {scope : Scope}

theorem All.declare (held : scope.All P) {name : Bytes} {value : Value} {constant : Bool}
    (given : P value) : (scope.declare name value constant).All P := by
  intro b member
  rcases List.mem_append.mp member with member | member
  · exact held b member
  · rw [List.mem_singleton.mp member]
    exact given

theorem All.assign (held : scope.All P) {name : Bytes} {value : Value} (given : P value) :
    (scope.assign name value).All P := by
  intro b member
  obtain ⟨old, before, rfl⟩ := List.mem_map.mp member
  split
  · exact given
  · exact held old before

theorem All.delete (held : scope.All P) {name : Bytes} : (scope.delete name).All P :=
  fun b member => held b (List.mem_filter.mp member).1

theorem All.mono {Q : Value → Prop} (held : scope.All P) (weaker : ∀ value, P value → Q value) :
    scope.All Q :=
  fun b member => weaker _ (held b member)

end Scope

namespace Store

variable {store : Store}

theorem All.mono {Q : Value → Prop} (held : store.All P) (weaker : ∀ value, P value → Q value) :
    store.All Q :=
  fun scope member => (held scope member).mono weaker

theorem All.scope? (held : store.All P) {s : ScopeId} {scope : Scope}
    (found : store.scope? s = some scope) : scope.All P :=
  held scope (Array.mem_of_getElem? found)

/-- What a look-up gives is bound in the scope that the name resolves to. -/
theorem lookup_ok {s : ScopeId} {name : Bytes} {value : Value}
    (found : store.lookup s name = .ok value) :
    ∃ home scope b, store.resolve s name = some home ∧ store.scope? home = some scope ∧
      b ∈ scope.bindings ∧ b.value = value := by
  simp only [Store.lookup, Store.find?] at found
  split at found
  next home binding found? =>
    simp only [Option.bind_eq_bind, Option.bind_eq_some_iff, Option.pure_def,
      Option.some.injEq, Prod.mk.injEq] at found?
    obtain ⟨home, resolved, scope, there, b, bound, -, rfl⟩ := found?
    exact ⟨home, scope, b, resolved, there, List.mem_of_find?_eq_some bound, by simpa using found⟩
  next => simp at found

theorem All.lookup (held : store.All P) {s : ScopeId} {name : Bytes} {value : Value}
    (found : store.lookup s name = .ok value) : P value := by
  obtain ⟨home, scope, b, -, there, bound, rfl⟩ := lookup_ok found
  exact held.scope? there b bound

theorem All.update (held : store.All P) {s : ScopeId} {f : Scope → Scope}
    (keeps : ∀ scope : Scope, scope.All P → (f scope).All P) : (store.update s f).All P := by
  intro scope member
  obtain ⟨i, inside, rfl⟩ := Array.mem_iff_getElem.mp member
  simp only [Store.update, Array.getElem_modify]
  split
  · exact keeps _ (held _ (Array.getElem_mem _))
  · exact held _ (Array.getElem_mem _)

theorem All.updateHome (held : store.All P) {s : ScopeId} {name : Bytes} {f : Scope → Scope}
    (keeps : ∀ scope : Scope, scope.All P → (f scope).All P) :
    (store.updateHome s name f).All P := by
  unfold Store.updateHome
  split
  · exact held.update keeps
  · exact held

theorem All.child (held : store.All P) {parent : ScopeId} : (store.child parent).2.All P := by
  intro scope member
  rcases Array.mem_push.mp member with member | rfl
  · exact held scope member
  · intro b member
    cases member

/-- The built-in names are bound to truth values, to null and to native functions. -/
theorem All.initial (null : P .null) (bool : ∀ b, P (.bool b)) (native : ∀ f, P (.native f)) :
    Store.initial.All P := by
  have fresh : Store.empty.All P := by
    intro scope member
    simp only [Store.empty, List.mem_toArray, List.mem_singleton] at member
    subst member
    intro b member
    cases member
  refine fresh.update fun scope held => ?_
  simp only [Store.builtins, List.map_cons, List.map_nil, List.cons_append, List.nil_append,
    List.foldl_cons, List.foldl_nil]
  exact ((((held.declare (bool true)).declare (bool false)).declare null).declare
    (native .print)).declare (native .type) |>.declare (native .range)

end Store
end Tide
