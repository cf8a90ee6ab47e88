import Mathlib
import Tide.Proofs.Eval.Discipline
import Tide.Proofs.Eval.Sources
import Tide.Proofs.Scope.Values

/-!
# Constants stay constant

A name that a scope binds as a constant keeps its value through every run, wherever the run happens
and however it ends, as long as no code deletes the name: neither the code that is run nor that of
any function held in the store.

## Proof strategy

The binding and its marker are kept by each of the changes to the store. A declaration goes behind
the binding and takes no marker away, an assignment that reached it would have been refused, and a
deletion is of another name. The rest is the discipline of code that does not delete the name.
-/
namespace Tide

namespace Store

/-- The scope binds the name to the value and marks it constant. -/
def Fixes (store : Store) (home : ScopeId) (x : Bytes) (value : Value) : Prop :=
  ∃ scope, store.scope? home = some scope ∧ scope.find? x = some ⟨x, value⟩ ∧
    scope.marks x = true

variable {store : Store} {home s : ScopeId} {x name : Bytes} {value : Value}

/-- A constant survives a change of another scope, and a change that leaves it alone in both
maps. -/
theorem Fixes.update (fixed : store.Fixes home x value) {f : Scope → Scope}
    (keeps : s = home → ∀ scope, store.scope? home = some scope →
      scope.find? x = some ⟨x, value⟩ → scope.marks x = true →
        (f scope).find? x = some ⟨x, value⟩ ∧ (f scope).marks x = true) :
    (store.update s f).Fixes home x value := by
  obtain ⟨scope, there, bound, marked⟩ := fixed
  by_cases here : s = home
  · refine ⟨f scope, ?_, keeps here scope there bound marked⟩
    rw [scope?_update, if_pos here, there]
    rfl
  · refine ⟨scope, ?_, bound, marked⟩
    rw [scope?_update, if_neg here, there]

theorem Fixes.declare (fixed : store.Fixes home x value) (given : Value) (constant : Bool) :
    (store.update s (·.declare name given constant)).Fixes home x value :=
  fixed.update fun _ _ _ bound marked =>
    ⟨by rw [Scope.find?_declare, bound, Option.some_or],
      by rw [Scope.marks_declare, marked, Bool.true_or]⟩

theorem Fixes.assign (fixed : store.Fixes home x value) (given : Value)
    (allowed : store.assignFault? s name = none) :
    (store.updateHome s name (·.assign name given)).Fixes home x value := by
  unfold updateHome
  split
  next nearest resolved =>
    refine fixed.update fun here scope there bound marked => ⟨?_, marked⟩
    by_cases named : name = x
    · -- The assignment would have found the constant itself.
      subst named here
      simp [assignFault?, marks, resolved, there, marked] at allowed
    · rw [Scope.find?_assign, bound, Option.map_some, if_neg (Ne.symm named)]
  next => exact fixed

theorem Fixes.delete (fixed : store.Fixes home x value) (other : name ≠ x) :
    (store.updateHome s name (·.delete name)).Fixes home x value := by
  unfold updateHome
  split
  · refine fixed.update fun _ scope _ bound marked => ?_
    rw [Scope.find?_delete, Scope.marks_delete, if_neg other, if_neg other]
    exact ⟨bound, marked⟩
  · exact fixed

theorem Fixes.child (fixed : store.Fixes home x value) (parent : ScopeId) :
    (store.child parent).2.Fixes home x value := by
  obtain ⟨scope, there, kept⟩ := fixed
  refine ⟨scope, ?_, kept⟩
  have old : home ≠ store.scopes.size := by
    rintro rfl
    simp [scope?] at there
  change (store.scopes.push _)[home]? = _
  rw [Array.getElem?_push, if_neg old]
  exact there

end Store

/-- Nowhere in the code is the name deleted. -/
def Node.Spares (x : Bytes) (node : Node) : Prop := ∀ span, ¬ (Node.del span x).Occurs node

theorem Node.spares_iff {x : Bytes} {node : Node} :
    node.Spares x ↔ (∀ span, node ≠ .del span x) ∧ ∀ part ∈ node.parts, part.Spares x := by
  constructor
  · intro spared
    refine ⟨?_, fun part inside span occurs => spared span (occurs.tail inside)⟩
    rintro span rfl
    exact spared span .refl
  · rintro ⟨other, parts⟩ span occurs
    rcases Relation.ReflTransGen.cases_tail occurs with same | ⟨part, occurs, inside⟩
    · exact other span same
    · exact parts part inside span occurs

theorem Node.Spares.part {x : Bytes} {node part : Node} (spared : node.Spares x)
    (inside : part ∈ node.parts) : part.Spares x :=
  (Node.spares_iff.mp spared).2 part inside

theorem Node.Spares.ne_of_del {x name : Bytes} {span : Span}
    (spared : (Node.del span name).Spares x) : name ≠ x :=
  fun same => (Node.spares_iff.mp spared).1 span (congrArg (Node.del span) same)

/-- No function in the value deletes the name. -/
def Value.Spares (x : Bytes) : Value → Prop := Value.Held (Node.Spares x) fun _ => True

namespace Eval

/-- Code that does not delete a name, in a store that binds it as a constant. -/
def keepingConstant (home : ScopeId) (x : Bytes) (value : Value) : Discipline where
  code := Node.Spares x
  home _ _ := True
  entered _ _ := True
  store store := store.Fixes home x value ∧ store.All (Value.Spares x)
  code_part given inside := given.part inside
  home_mono _ _ := trivial
  entered_mono _ _ := trivial
  home_of_entered _ := trivial
  lookup kept _ found := kept.2.lookup found
  declare kept _ given _ :=
    ⟨kept.1.declare _ _, kept.2.update fun _ held => held.declare given⟩
  assign kept _ given allowed :=
    ⟨kept.1.assign _ allowed, kept.2.updateHome fun _ held => held.assign given⟩
  delete kept _ given _ :=
    ⟨kept.1.delete given.ne_of_del, kept.2.updateHome fun _ held => held.delete⟩
  child kept _ := ⟨⟨kept.1.child _, kept.2.child⟩, trivial⟩

end Eval

/-- A constant keeps its value through every evaluation of code that does not delete it. -/
theorem constant_kept {machine : Machine} {home : ScopeId} {x : Bytes} {value : Value} {node : Node}
    (fixed : machine.store.Fixes home x value) (tree : node.Spares x)
    (functions : machine.store.All (Value.Spares x)) (depth : Nat) (s : ScopeId) :
    (Machine.settle (eval depth node s machine)).2.store.Fixes home x value := by
  have after := (Eval.keepingConstant home x value).disciplined_eval depth 0 node s tree trivial
    machine ⟨fixed, functions⟩ (Nat.zero_le _)
  cases ended : eval depth node s machine with
  | ok result last =>
    rw [ended] at after
    exact after.1.1
  | error failure last =>
    rw [ended] at after
    exact after.1.1

/-- The assignment `true = false`. -/
def assignedTrue : Node :=
  .assign .zero (.name .zero (utf8 "true")) (.name .zero (utf8 "false"))

theorem constant_kept_assignedTrue :
    (Machine.settle (eval 2 assignedTrue Store.globalScope .initial)).2.store.Fixes
      Store.globalScope (utf8 "true") (.bool true) := by
  refine constant_kept ⟨_, rfl, rfl, rfl⟩ ?_ (.initial .null .bool .native) 2 Store.globalScope
  have leaf (name : Bytes) : (Node.name .zero name).Spares (utf8 "true") :=
    Node.spares_iff.mpr ⟨nofun, nofun⟩
  refine Node.spares_iff.mpr ⟨nofun, fun part inside => ?_⟩
  simp only [assignedTrue, Node.parts, List.mem_cons, List.not_mem_nil, or_false] at inside
  rcases inside with rfl | rfl
  · exact leaf _
  · exact leaf _

end Tide
