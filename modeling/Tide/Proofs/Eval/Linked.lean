import Tide.Eval.Evaluate

/-!
# Two evaluations side by side

A link says when two machines correspond and when two failures do. Two computations run linked when,
started in machines that correspond, both give values in a given relation or both fail alike, and
leave machines that correspond again. A link may also excuse some failures of the first
computation; behind one of those, nothing is promised.
-/
namespace Tide

namespace Eval

structure Link where
  machine : Machine → Machine → Prop
  failure : Failure → Failure → Prop
  /-- The failures of the first computation that need no counterpart. -/
  excused : Failure → Prop

namespace Link

variable {α β γ δ : Type} {link : Link}

def Agree (link : Link) (P : α → β → Prop) :
    EStateM.Result Failure Machine α → EStateM.Result Failure Machine β → Prop
  | .ok a m, .ok b n => link.machine m n ∧ P a b
  | .error e m, .error f n => link.excused e ∨ link.machine m n ∧ link.failure e f
  | .error e _, .ok _ _ => link.excused e
  | .ok _ _, .error _ _ => False

def Runs (link : Link) (x : Eval α) (y : Eval β) (P : α → β → Prop) : Prop :=
  ∀ m n, link.machine m n → link.Agree P (x m) (y n)

section

variable {P Q : α → β → Prop} {x : EStateM.Result Failure Machine α}
  {y : EStateM.Result Failure Machine β}

/-- Computations that agree give values or fail alike, unless the first is excused. -/
theorem Agree.cases (agree : link.Agree P x y) :
    (∃ a m b n, x = .ok a m ∧ y = .ok b n ∧ link.machine m n ∧ P a b) ∨
      (∃ e m f n, x = .error e m ∧ y = .error f n ∧ link.machine m n ∧ link.failure e f) ∨
      ∃ e m, x = .error e m ∧ link.excused e := by
  cases x with
  | ok a m =>
    cases y with
    | ok b n => exact .inl ⟨a, m, b, n, rfl, rfl, agree⟩
    | error f n => exact agree.elim
  | error e m =>
    cases y with
    | ok b n => exact .inr (.inr ⟨e, m, rfl, agree⟩)
    | error f n =>
      obtain excused | alike := agree
      · exact .inr (.inr ⟨e, m, rfl, excused⟩)
      · exact .inr (.inl ⟨e, m, f, n, rfl, rfl, alike⟩)

theorem Agree.excuse {e : Failure} {m : Machine} (excused : link.excused e) :
    link.Agree P (.error e m) y := by
  cases y with
  | ok b n => exact excused
  | error f n => exact .inl excused

theorem Agree.mono (agree : link.Agree P x y) (weaker : ∀ a b, P a b → Q a b) :
    link.Agree Q x y := by
  obtain ⟨a, m, b, n, rfl, rfl, machines, given⟩ | ⟨e, m, f, n, rfl, rfl, alike⟩ |
    ⟨e, m, rfl, excused⟩ := agree.cases
  · exact ⟨machines, weaker a b given⟩
  · exact .inr alike
  · exact .excuse excused

end

theorem Runs.pure {a : α} {b : β} {P : α → β → Prop} (given : P a b) :
    link.Runs (Pure.pure a) (Pure.pure b) P :=
  fun _ _ linked => ⟨linked, given⟩

theorem Runs.throw {e f : Failure} {P : α → β → Prop} (alike : link.failure e f) :
    link.Runs (MonadExcept.throw e) (MonadExcept.throw f) P :=
  fun _ _ linked => .inr ⟨linked, alike⟩

theorem Runs.excuse {e : Failure} {y : Eval β} {P : α → β → Prop} (excused : link.excused e) :
    link.Runs (MonadExcept.throw e) y P := by
  exact fun _ _ _ => Agree.excuse excused

theorem Runs.bind {x : Eval α} {y : Eval β} {f : α → Eval γ} {g : β → Eval δ}
    {P : α → β → Prop} {Q : γ → δ → Prop} (first : link.Runs x y P)
    (second : ∀ a b, P a b → link.Runs (f a) (g b) Q) : link.Runs (x >>= f) (y >>= g) Q := by
  intro m n linked
  have agree := first m n linked
  change link.Agree Q (EStateM.bind x f m) (EStateM.bind y g n)
  unfold EStateM.bind
  obtain ⟨a, m, b, n, left, right, machines, given⟩ | ⟨e, m, f, n, left, right, alike⟩ |
    ⟨e, m, left, excused⟩ := agree.cases
  · rw [left, right]
    exact second a b given m n machines
  · rw [left, right]
    exact .inr alike
  -- The second computation may go on, but the first is excused already.
  · rw [left]
    exact .excuse excused

theorem Runs.mono {x : Eval α} {y : Eval β} {P Q : α → β → Prop} (run : link.Runs x y P)
    (weaker : ∀ a b, P a b → Q a b) : link.Runs x y Q :=
  fun m n linked => (run m n linked).mono weaker

end Link
end Eval
end Tide
