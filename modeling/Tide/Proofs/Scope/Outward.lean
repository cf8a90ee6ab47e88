import Mathlib
import Tide.Proofs.Scope.WellFormed

/-!
# The way outwards

A name is looked up in a scope and then in one scope after the other outwards. Where parents come
before their children this way ends, and a name is resolved to the nearest scope on it that binds
the name. What a look-up gives is decided by the bindings on the way: stores that agree on them give
the same.
-/
namespace Tide

namespace Store

/-- The binding of a name in the scope itself. -/
def binding? (store : Store) (s : ScopeId) (name : Bytes) : Option Binding :=
  (store.scope? s).bind (·.find? name)

def Binds (store : Store) (s : ScopeId) (name : Bytes) : Prop :=
  (store.binding? s name).isSome = true

/-- The scope itself marks the name constant. -/
def Marks (store : Store) (s : ScopeId) (name : Bytes) : Prop := store.marks s name = true

/-- The way outwards from a scope. -/
def Outward (store : Store) : ScopeId → ScopeId → Prop := Relation.ReflTransGen store.Up

/-- The way outwards from a scope to another one, on which no scope in front of the last one binds
the name. -/
def Clear (store : Store) (name : Bytes) : ScopeId → ScopeId → Prop :=
  Relation.ReflTransGen fun a p => ¬ store.Binds a name ∧ store.Up a p

/-- Parents come before their children. -/
def Ordered (store : Store) : Prop := ∀ ⦃s p⦄, store.Up s p → p < s

variable {store after : Store} {s t home : ScopeId} {x : Bytes}

/-! ### The way outwards -/

theorem Outward.le (ordered : store.Ordered) (way : store.Outward s t) : t ≤ s := by
  induction way with
  | refl => exact le_rfl
  | tail _ up ih => exact (ordered up).le.trans ih

theorem Clear.outward (clear : store.Clear x s t) : store.Outward s t :=
  Relation.ReflTransGen.mono (fun _ _ => And.right) s t clear

theorem binding?_eq_none_iff : store.binding? s x = none ↔ ¬ store.Binds s x := by
  simp [Binds]

/-- A name is resolved where it is bound, and otherwise one scope further out. -/
theorem resolve_step (ordered : store.Ordered) (s : ScopeId) (x : Bytes) :
    store.resolve s x =
      if (store.binding? s x).isSome then some s
      else (store.parent? s).bind (store.resolve · x) := by
  rw [Store.resolve]
  cases there : store.scope? s with
  | none => simp [binding?, parent?, there]
  | some scope =>
    cases up : scope.parent with
    | none => simp [binding?, parent?, there, up, Scope.binds]
    | some p =>
      -- The search only goes on at a smaller number, which a parent always has.
      have closer : p < s := ordered (by simp [Up, parent?, there, up])
      simp [binding?, parent?, there, up, Scope.binds, closer]

theorem resolve_of_binds (ordered : store.Ordered) (bound : store.Binds s x) :
    store.resolve s x = some s :=
  (resolve_step ordered s x).trans (if_pos bound)

theorem resolve_of_up (ordered : store.Ordered) (free : ¬ store.Binds s x) {p : ScopeId}
    (up : store.Up s p) : store.resolve s x = store.resolve p x := by
  have parent : store.parent? s = some p := up
  refine (resolve_step ordered s x).trans ((if_neg free).trans ?_)
  rw [parent, Option.bind_some]

theorem resolve_of_orphan (ordered : store.Ordered) (free : ¬ store.Binds s x)
    (alone : store.parent? s = none) : store.resolve s x = none := by
  refine (resolve_step ordered s x).trans ((if_neg free).trans ?_)
  rw [alone, Option.bind_none]

/-- Cases of a scope and a name: it is bound there, or looked for at the parent, or nowhere. -/
theorem way_cases (store : Store) (s : ScopeId) (x : Bytes) :
    store.Binds s x ∨ ¬ store.Binds s x ∧ (store.parent? s = none ∨ ∃ p, store.Up s p) := by
  by_cases bound : store.Binds s x
  · exact .inl bound
  · cases up : store.parent? s with
    | none => exact .inr ⟨bound, .inl rfl⟩
    | some p => exact .inr ⟨bound, .inr ⟨p, up⟩⟩

/-- A name is resolved to the nearest scope that binds it. -/
theorem resolve_eq_some_iff (ordered : store.Ordered) :
    store.resolve s x = some t ↔ store.Clear x s t ∧ store.Binds t x := by
  constructor
  · -- The search follows the parents, whose numbers fall.
    intro resolved
    induction s using Nat.strongRecOn with
    | ind s ih =>
      rcases way_cases store s x with bound | ⟨free, alone | ⟨p, up⟩⟩
      · rw [resolve_of_binds ordered bound] at resolved
        obtain rfl := Option.some.inj resolved
        exact ⟨.refl, bound⟩
      · rw [resolve_of_orphan ordered free alone] at resolved
        cases resolved
      · rw [resolve_of_up ordered free up] at resolved
        obtain ⟨clear, bound⟩ := ih p (ordered up) resolved
        exact ⟨.head ⟨free, up⟩ clear, bound⟩
  · -- Nothing on a clear way stops the search before its end.
    rintro ⟨clear, bound⟩
    induction clear using Relation.ReflTransGen.head_induction_on with
    | refl => exact resolve_of_binds ordered bound
    | head first _ ih => rw [resolve_of_up ordered first.1 first.2, ih]

/-- Only one clear way ends at a scope that binds the name. -/
theorem nearest_unique (ordered : store.Ordered) (resolved : store.resolve s x = some home)
    (clear : store.Clear x s t) (bound : store.Binds t x) : home = t :=
  Option.some.inj (resolved.symm.trans ((resolve_eq_some_iff ordered).mpr ⟨clear, bound⟩))

theorem resolve_eq_none_iff (ordered : store.Ordered) :
    store.resolve s x = none ↔ ∀ t, store.Outward s t → ¬ store.Binds t x := by
  constructor
  · intro nowhere t way
    -- Along the way: a scope that binds the name would have stopped the search.
    induction way using Relation.ReflTransGen.head_induction_on with
    | refl =>
      intro bound
      rw [resolve_of_binds ordered bound] at nowhere
      cases nowhere
    | @head a p up _ ih =>
      rcases way_cases store a x with bound | ⟨free, -⟩
      · rw [resolve_of_binds ordered bound] at nowhere
        cases nowhere
      · exact ih (resolve_of_up ordered free up ▸ nowhere)
  · intro free
    cases resolved : store.resolve s x with
    | none => rfl
    | some t =>
      obtain ⟨clear, bound⟩ := (resolve_eq_some_iff ordered).mp resolved
      exact absurd bound (free t clear.outward)

theorem resolve_le (ordered : store.Ordered) (resolved : store.resolve s x = some t) : t ≤ s :=
  ((resolve_eq_some_iff ordered).mp resolved).1.outward.le ordered

theorem Ordered.of_parents (ordered : store.Ordered)
    (parents : ∀ t, after.parent? t = store.parent? t) : after.Ordered := by
  intro s p up
  unfold Up at up
  rw [parents] at up
  exact ordered up

/-! ### Looking up -/

theorem find?_eq : store.find? s x =
    (store.resolve s x).bind fun home => (store.binding? home x).map (home, ·) := by
  unfold find? binding?
  simp [Option.map_eq_bind, Option.bind_assoc]

theorem lookup_of_resolve (resolved : store.resolve s x = some home) {b : Binding}
    (bound : store.binding? home x = some b) : store.lookup s x = .ok b.value := by
  simp [lookup, find?_eq, resolved, bound]

theorem lookup_of_unresolved (nowhere : store.resolve s x = none) :
    store.lookup s x = .error (.undefined x) := by
  simp [lookup, find?_eq, nowhere]

theorem lookup_congr_resolve (same : store.resolve s x = store.resolve t x) :
    store.lookup s x = store.lookup t x := by
  simp [lookup, find?_eq, same]

theorem lookup_of_binding (ordered : store.Ordered) {b : Binding}
    (bound : store.binding? s x = some b) : store.lookup s x = .ok b.value :=
  lookup_of_resolve (resolve_of_binds ordered (Option.isSome_of_eq_some bound)) bound

theorem lookup_of_up (ordered : store.Ordered) (free : ¬ store.Binds s x) {p : ScopeId}
    (up : store.Up s p) : store.lookup s x = store.lookup p x :=
  lookup_congr_resolve (resolve_of_up ordered free up)

theorem lookup_of_orphan (ordered : store.Ordered) (free : ¬ store.Binds s x)
    (alone : store.parent? s = none) : store.lookup s x = .error (.undefined x) :=
  lookup_of_unresolved (resolve_of_orphan ordered free alone)

/-- Scopes that see the same on their way outwards look up the same. The condition singles out the
scopes for which this is to be shown, and holds on along the way. -/
theorem lookup_congr_way {P : ScopeId → Prop} (ordered : store.Ordered)
    (parents : ∀ t, after.parent? t = store.parent? t)
    (same : ∀ t, P t → after.binding? t x = store.binding? t x)
    (further : ∀ t p, P t → ¬ store.Binds t x → store.Up t p → P p) (here : P t) :
    after.lookup t x = store.lookup t x := by
  have orderedAfter := ordered.of_parents parents
  induction t using Nat.strongRecOn with
  | ind t ih =>
    -- Both stores stop here or both go on, and then at the same parent.
    have binds : after.Binds t x ↔ store.Binds t x := by
      unfold Binds
      rw [same t here]
    rcases way_cases store t x with bound | ⟨free, alone | ⟨p, up⟩⟩
    · obtain ⟨b, found⟩ := Option.isSome_iff_exists.mp bound
      rw [lookup_of_binding ordered found,
        lookup_of_binding orderedAfter ((same t here).trans found)]
    · rw [lookup_of_orphan ordered free alone,
        lookup_of_orphan orderedAfter (mt binds.mp free) ((parents t).trans alone)]
    · rw [lookup_of_up ordered free up,
        lookup_of_up orderedAfter (mt binds.mp free) ((parents t).trans up)]
      exact ih p (ordered up) (further t p here free up)

theorem lookup_congr (ordered : store.Ordered) (parents : ∀ t, after.parent? t = store.parent? t)
    (same : ∀ t, after.binding? t x = store.binding? t x) (t : ScopeId) :
    after.lookup t x = store.lookup t x :=
  lookup_congr_way (P := fun _ => True) ordered parents (fun t _ => same t)
    (fun _ _ _ _ _ => trivial) trivial

end Store
end Tide
