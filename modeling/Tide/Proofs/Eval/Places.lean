import Mathlib
import Tide.Proofs.Eval.Simulation
import Tide.Proofs.Scope.Forget

/-!
# Evaluation does not see places

Evaluating a tree and then forgetting all places gives what evaluating the tree without its places
gives, on a machine without places: the same scopes, the same output, the same value, or the same
failure with another span. The second evaluation may be allowed to go deeper than the first. Then
nothing is said about it where the first one met its bound.
-/
namespace Tide

def Failure.forget : Failure → Failure
  | .runtime fault _ => .runtime fault .zero
  | .raised message _ => .raised message .zero
  | .exhausted => .exhausted

theorem Failure.text_forget (failure : Failure) : failure.forget.text = failure.text := by
  cases failure <;> rfl

theorem Failure.like_forget_iff {e f : Failure} :
    e.Like (fun _ q => q = .zero) f ↔ f = e.forget := by
  constructor
  · intro like
    cases like with
    | runtime places => rw [places, forget]
    | raised places => rw [places, forget]
    | exhausted => rfl
  · rintro rfl
    cases e with
    | runtime => exact .runtime rfl
    | raised => exact .raised rfl
    | exhausted => exact .exhausted

namespace Eval

/-- The second run is the first without places. A loose link excuses a first run that met its
bound. -/
def placeless (width : Int → Int) (loose : Prop) : Link where
  machine m n := n = m.forget width
  failure e f := f = e.forget
  excused e := loose ∧ e = .exhausted

/-- The comparison of a run with the same run without places. -/
def Simulation.forgetting (width : Int → Int) (loose : Prop) : Simulation :=
  { Likeness.forgetting width with
    scopes := .forgetting width
    output := fun left right => right = left
    output_append := fun same text => by rw [same]
    loose := loose }

variable {width : Int → Int} {loose : Prop}

theorem link_forgetting : (Simulation.forgetting width loose).link = placeless width loose := by
  have machines (m n : Machine) :
      (Simulation.forgetting width loose).Machines m n ↔ n = m.forget width := by
    constructor
    · rintro ⟨store, fresh, output⟩
      have sameStore : n.store = m.store.forget width := (Store.like_forget_iff width _).mp store
      have sameNext : m.nextIdentity = n.nextIdentity := fresh 0
      have sameOutput : n.output = m.output := output
      cases n
      simp_all [Machine.forget]
    · rintro rfl
      exact ⟨m.store.like_forget width, fun _ => rfl, rfl⟩
  simp only [Simulation.link, placeless, Link.mk.injEq]
  refine ⟨?_, ?_, rfl⟩
  · funext m n
    exact propext (machines m n)
  · funext e f
    exact propext Failure.like_forget_iff

/-- The second evaluator does to trees without places what the first one does. -/
def Placeless (width : Int → Int) (loose : Prop) (ev ev' : Node → ScopeId → Eval Value) : Prop :=
  ∀ node s, (placeless width loose).Runs (ev node s) (ev' (node.forget width) s)
    fun a b => b = a.forget width

theorem program_forgets {ev ev' : Node → ScopeId → Eval Value}
    (placeless : Placeless width loose ev ev') (s : ScopeId) (result : Value) (nodes : List Node) :
    (Eval.placeless width loose).Runs (program ev s result nodes)
      (program ev' s (result.forget width) (nodes.map (Node.forget width)))
      fun a b => b = a.forget width := by
  rw [← link_forgetting]
  have agrees : (Simulation.forgetting width loose).Agrees ev ev' := by
    rintro node _ s rfl
    rw [link_forgetting]
    exact placeless node s
  exact Simulation.program_like agrees s ((forall₂_image fun _ _ => Iff.rfl).mpr rfl) rfl

end Eval

/-- Evaluation does not depend on places, nor on its bound once it has met a result. -/
theorem eval_forgets {width : Int → Int} {loose : Prop} {depth depth' : Nat}
    (deeper : Eval.Reaches loose depth depth') :
    Eval.Placeless width loose (eval depth) (eval depth') := by
  intro node s
  rw [← Eval.link_forgetting]
  exact (Eval.Simulation.forgetting width loose).agrees_eval deeper node _ s rfl

end Tide
