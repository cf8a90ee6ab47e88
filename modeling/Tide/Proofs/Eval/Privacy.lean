import Mathlib
import Tide.Proofs.Eval.Discipline
import Tide.Proofs.Scope.WellFormed

/-!
# The state of a closure is private

A scope leads to its parent and to the scopes that the closures bound in it were made in. Evaluation
in a scope sees no more of the store than it can reach in this way. Every other scope that was there
keeps its bindings and their markers, and stays out of reach: neither from the scope of the
evaluation nor from its value does any way lead there afterwards. The store need not be well formed
for this.

## Proof strategy

Call the scopes hidden that were there and out of reach at the start. The others are closed: no way
leads out of them. Evaluation starts among them and only ever runs code in them, because names are
resolved outwards and a closure is called in the scope that it was made in. A new scope is not among
the hidden ones, and each change of a scope that is not hidden keeps the others closed.
-/
namespace Tide

namespace Store

/-- The scope has the other one as its parent, or binds a value with a closure made there. -/
def Leads (store : Store) (s t : ScopeId) : Prop :=
  store.Up s t ∨ ∃ scope, store.scope? s = some scope ∧ ∃ b ∈ scope.bindings, b.value.Captures t

def Reaches (store : Store) : ScopeId → ScopeId → Prop := Relation.ReflTransGen store.Leads

/-- No way leads out of these scopes. -/
structure Closed (store : Store) (inside : ScopeId → Prop) : Prop where
  up {s p : ScopeId} (here : inside s) (up : store.Up s p) : inside p
  held {s : ScopeId} {scope : Scope} (here : inside s) (there : store.scope? s = some scope) :
    scope.All (Value.Held (fun _ => True) inside)

variable {store : Store} {inside : ScopeId → Prop} {s t : ScopeId} {name : Bytes}

theorem closed_iff : store.Closed inside ↔ ∀ s t, inside s → store.Leads s t → inside t := by
  constructor
  · rintro closed s t here (up | ⟨scope, there, b, bound, captured⟩)
    · exact closed.up here up
    · exact (closed.held here there b bound).home_of_captures captured
  · intro leads
    refine ⟨fun here up => leads _ _ here (.inl up), fun here there b bound => ?_⟩
    exact Value.held_iff_captures.mpr fun t captured =>
      leads _ t here (.inr ⟨_, there, b, bound, captured⟩)

namespace Closed

variable (closed : store.Closed inside)

include closed

theorem reaches (here : inside s) (way : store.Reaches s t) : inside t := by
  induction way with
  | refl => exact here
  | tail _ leads ih => exact closed_iff.mp closed _ _ ih leads

theorem resolve (here : inside s) {home : ScopeId}
    (resolved : store.resolve s name = some home) : inside home := by
  -- Each step of the search goes to a parent with a smaller number.
  induction s using Nat.strongRecOn with
  | ind s ih =>
    rw [Store.resolve] at resolved
    split at resolved
    next => cases resolved
    next scope there =>
      split at resolved
      next =>
        obtain rfl : s = home := Option.some.inj resolved
        exact here
      next =>
        split at resolved
        next => cases resolved
        next p parent =>
          split at resolved
          next closer =>
            have up : store.Up s p := by simp [Up, parent?, there, parent]
            exact ih p closer (closed.up here up) resolved
          next => cases resolved

theorem lookup (here : inside s) {value : Value} (found : store.lookup s name = .ok value) :
    value.Held (fun _ => True) inside := by
  obtain ⟨home, scope, b, resolved, there, bound, rfl⟩ := lookup_ok found
  exact closed.held (closed.resolve here resolved) there b bound

theorem update {f : Scope → Scope} (parents : ∀ scope, (f scope).parent = scope.parent)
    (values : ∀ scope : Scope, scope.All (Value.Held (fun _ => True) inside) →
      (f scope).All (Value.Held (fun _ => True) inside)) :
    (store.update s f).Closed inside where
  up here up := by
    unfold Up at up
    rw [parent?_update parents] at up
    exact closed.up here up
  held := by
    intro t scope here there
    rw [scope?_update] at there
    split at there
    next =>
      obtain ⟨old, before, rfl⟩ := Option.map_eq_some_iff.mp there
      exact values old (closed.held here before)
    next => exact closed.held here there

theorem child {parent : ScopeId} (given : inside parent) :
    (store.child parent).2.Closed inside where
  up here up := by
    unfold Up at up
    rw [parent?_child] at up
    split at up
    next => exact Option.some.inj up ▸ given
    next => exact closed.up here up
  held := by
    intro t scope here there
    rw [scope?_child] at there
    split at there
    next =>
      -- Nothing is bound yet in the new scope.
      obtain rfl := Option.some.inj there
      exact nofun
    next => exact closed.held here there

end Closed

/-- The hidden scopes are as they were in the first store, and no way leads to them. -/
structure Conceals (start : Store) (hidden : ScopeId → Prop) (store : Store) : Prop where
  size : start.size ≤ store.size
  kept {t : ScopeId} (out : hidden t) : store.scope? t = start.scope? t
  closed : store.Closed fun s => ¬ hidden s

namespace Conceals

variable {start : Store} {hidden : ScopeId → Prop} (concealed : start.Conceals hidden store)

include concealed

theorem update (here : ¬ hidden s) {f : Scope → Scope}
    (parents : ∀ scope, (f scope).parent = scope.parent)
    (values : ∀ scope : Scope, scope.All (Value.Held (fun _ => True) fun t => ¬ hidden t) →
      (f scope).All (Value.Held (fun _ => True) fun t => ¬ hidden t)) :
    start.Conceals hidden (store.update s f) where
  size := concealed.size.trans (size_update ..).ge
  kept := by
    intro t out
    have other : s ≠ t := by
      rintro rfl
      exact here out
    rw [scope?_update, if_neg other]
    exact concealed.kept out
  closed := concealed.closed.update parents values

theorem updateHome (here : ¬ hidden s) {f : Scope → Scope}
    (parents : ∀ scope, (f scope).parent = scope.parent)
    (values : ∀ scope : Scope, scope.All (Value.Held (fun _ => True) fun t => ¬ hidden t) →
      (f scope).All (Value.Held (fun _ => True) fun t => ¬ hidden t)) :
    start.Conceals hidden (store.updateHome s name f) := by
  unfold Store.updateHome
  split
  next home resolved =>
    have there : ¬ hidden home := concealed.closed.resolve here resolved
    exact concealed.update there parents values
  next => exact concealed

theorem child (old : ∀ t, hidden t → t < start.size) {parent : ScopeId} (given : ¬ hidden parent) :
    start.Conceals hidden (store.child parent).2 where
  size := concealed.size.trans ((Nat.le_succ _).trans (size_child ..).ge)
  kept := by
    intro t out
    -- The new scope stands behind all scopes of the first store.
    have other : t ≠ store.size := ((old t out).trans_le concealed.size).ne
    rw [scope?_child, if_neg other]
    exact concealed.kept out
  closed := concealed.closed.child given

end Conceals

/-- There, and out of reach. -/
def Hidden (store : Store) (s t : ScopeId) : Prop := t < store.size ∧ ¬ store.Reaches s t

theorem not_hidden_self : ¬ store.Hidden s s := fun out => out.2 .refl

/-- A store conceals what is out of reach in it. -/
theorem conceals_hidden : store.Conceals (store.Hidden s) store where
  size := le_rfl
  kept _ := rfl
  closed := by
    refine closed_iff.mpr fun a t here leads out => ?_
    by_cases reached : store.Reaches s a
    · exact out.2 (reached.tail leads)
    · -- What is neither within reach nor hidden is no scope at all, and leads nowhere.
      have nothing : store.scope? a = none :=
        Array.getElem?_eq_none (Nat.le_of_not_lt fun there => here ⟨there, reached⟩)
      rcases leads with up | ⟨scope, there, -⟩
      · simp [Up, parent?, nothing] at up
      · simp [nothing] at there

end Store

namespace Eval

/-- Any code in scopes that are not hidden, in a store that conceals the hidden ones. -/
def keepingHidden (start : Store) (hidden : ScopeId → Prop)
    (old : ∀ t, hidden t → t < start.size) : Discipline where
  code _ := True
  home _ s := ¬ hidden s
  entered _ s := ¬ hidden s
  store := start.Conceals hidden
  code_part _ _ := trivial
  home_mono _ here := here
  entered_mono _ here := here
  home_of_entered here := here
  lookup kept here found := kept.closed.lookup here found
  declare kept here given _ := kept.update here (fun _ => rfl) fun _ held => held.declare given
  assign kept here given _ := kept.updateHome here (fun _ => rfl) fun _ held => held.assign given
  delete kept here _ _ := kept.updateHome here (fun _ => rfl) fun _ held => held.delete
  child kept given := ⟨kept.child old given, fun out => (old _ out).not_ge kept.size⟩

end Eval

/-- Evaluation leaves a scope that it cannot reach as it was, and no way leads to that scope
afterwards, neither from the scope of the evaluation nor from a closure in its value. -/
theorem unreached_scope_kept {machine : Machine} {s t : ScopeId} (old : t < machine.store.size)
    (apart : ¬ machine.store.Reaches s t) (depth : Nat) (node : Node) :
    let (outcome, last) := Machine.settle (eval depth node s machine)
    last.store.scope? t = machine.store.scope? t ∧ ¬ last.store.Reaches s t ∧
      ∀ value, outcome = .value value → ∀ home, value.Captures home →
        ¬ last.store.Reaches home t := by
  have out : machine.store.Hidden s t := ⟨old, apart⟩
  obtain ⟨concealed, held⟩ :=
    (Eval.keepingHidden machine.store (machine.store.Hidden s) fun _ => And.left).settle_eval
      depth node s trivial Store.not_hidden_self Store.conceals_hidden
  refine ⟨concealed.kept out, fun way => ?_, fun value ended home captured way => ?_⟩
  · exact concealed.closed.reaches Store.not_hidden_self way out
  · have outside := (held value ended).home_of_captures captured
    exact concealed.closed.reaches outside way out

/-- Besides the global scope, the scope of a call that has bound `n` and is forgotten. -/
def forgottenCall : Machine :=
  ⟨(Store.initial.child Store.globalScope).2.update 1 (·.declare (utf8 "n") (.bool true) false),
    [], 0⟩

/-- The declaration `? n = null`, in the global scope. -/
def declaredAgain : Node := .declare .zero (utf8 "n") false (.name .zero (utf8 "null"))

theorem forgottenCall_kept :
    ¬ forgottenCall.store.Reaches Store.globalScope 1 ∧
      (Machine.settle (eval 3 declaredAgain Store.globalScope forgottenCall)).2.store.scope? 1 =
        some ⟨some Store.globalScope, [⟨utf8 "n", .bool true⟩], []⟩ := by
  have apart : ¬ forgottenCall.store.Reaches Store.globalScope 1 := by
    have alone : forgottenCall.store.Closed (· = Store.globalScope) := by
      have builtins : Store.initial.All (Value.Held (fun _ => True) (· = Store.globalScope)) :=
        .initial .null .bool .native
      refine ⟨?_, ?_⟩
      · rintro _ p rfl up
        cases up
      · rintro _ scope rfl there
        have global : Store.initial.scope? Store.globalScope = some scope := there
        exact builtins.scope? global
    exact fun way => absurd (alone.reaches rfl way) (by decide)
  exact ⟨apart, (unreached_scope_kept (by decide) apart 3 declaredAgain).1⟩

end Tide
