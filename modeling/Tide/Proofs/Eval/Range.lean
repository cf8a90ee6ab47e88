import Mathlib
import Tide.Eval.Native
import Tide.Proofs.Number.Addition

/-!
# Counting

A count adds the step again and again. In units of the least double the numbers it goes through
never turn back, because addition of the step respects the order; they get closer to the end with
each round, unless the step is too small to change one of them. If it fails to change some number
of the interval, no number before that one ever gets past it.
-/
namespace Tide

/-! ### One step of a count -/

namespace Number

open Binary64

/-- How far a number has come, counting up or down. -/
def ahead (up : Bool) (x : Float) : Int := if up then units x else -units x

variable {up : Bool} {x y step : Float}

/-- Adding the same number respects the order. -/
theorem ahead_add_mono (finite : Finite x) (finite' : Finite y) (small : Finite step)
    (order : ahead up x ≤ ahead up y) : ahead up (x + step) ≤ ahead up (y + step) := by
  have sum := (add_spec finite small).2
  have sum' := (add_spec finite' small).2
  cases up
  · simp only [ahead, Bool.false_eq_true, if_false] at order ⊢
    have kept := @nearest_mono (units y + units step) (units x + units step) (by omega)
    omega
  · simp only [ahead, if_true] at order ⊢
    have kept := @nearest_mono (units x + units step) (units y + units step) (by omega)
    omega

/-- A step ahead never leads back. -/
theorem ahead_le_add (finite : Finite x) (small : Finite step) (forward : 0 < ahead up step) :
    ahead up x ≤ ahead up (x + step) := by
  have sum := (add_spec finite small).2
  have same := nearest_units finite
  cases up
  · simp only [ahead, Bool.false_eq_true, if_false] at forward ⊢
    have kept := @nearest_mono (units x + units step) (units x) (by omega)
    omega
  · simp only [ahead, if_true] at forward ⊢
    have kept := @nearest_mono (units x) (units x + units step) (by omega)
    omega

theorem finite_of_between {a b : Float} (number : ofFloat x ≠ .nan) (finite : Finite a)
    (finite' : Finite b) (above : ahead up a ≤ ahead up x) (below : ahead up x < ahead up b) :
    Finite x := by
  have bounds := finite.units_bounds
  have bounds' := finite'.units_bounds
  cases up <;> simp only [ahead, Bool.false_eq_true, if_false, if_true] at above below
  · exact finite_of_units number (by omega) (by omega)
  · exact finite_of_units number (by omega) (by omega)

end Number

/-! ### The rounds of a count -/

namespace Native

open Binary64 Number

/-- Whether a count goes on. -/
def goes (up : Bool) (stop x : Float) : Bool := if up then x < stop else x > stop

variable {up : Bool} {start stop step x : Float}

theorem goes_iff (number : ofFloat x ≠ .nan) (finite : Finite stop) :
    goes up stop x = true ↔ ahead up x < ahead up stop := by
  cases up
  · simp only [goes, ahead, Bool.false_eq_true, if_false, decide_eq_true_iff, gt_iff_lt]
    rw [lt_iff finite.number number]
    omega
  · simp only [goes, ahead, if_true, decide_eq_true_iff]
    exact lt_iff number finite.number

/-- From the start on, and before the end. -/
structure Within (up : Bool) (start stop x : Float) : Prop where
  number : ofFloat x ≠ .nan
  reached : ahead up start ≤ ahead up x
  before : ahead up x < ahead up stop

section

variable (begins : Finite start) (ends : Finite stop) (small : Finite step)
  (forward : 0 < ahead up step)

include begins ends

theorem Within.finite (within : Within up start stop x) : Finite x :=
  finite_of_between within.number begins ends within.reached within.before

include small forward

/-- What one round keeps: the next number is not before the start either. -/
theorem Within.next (within : Within up start stop x) :
    ofFloat (x + step) ≠ .nan ∧ ahead up start ≤ ahead up (x + step) := by
  have finite := within.finite begins ends
  constructor
  · exact (add_spec finite small).1
  · exact within.reached.trans (ahead_le_add finite small forward)

/-- When the step moves every number of the interval, the distance to the end bounds the
rounds. -/
theorem count_finishes
    (moves : ∀ y, Within up start stop y → ahead up (y + step) ≠ ahead up y) {rounds : Nat}
    {reached : List Value} (number : ofFloat x ≠ .nan) (above : ahead up start ≤ ahead up x)
    (enough : (ahead up stop - ahead up x).toNat < rounds) :
    ∃ values, count (goes up stop) step rounds x reached = some values := by
  induction rounds generalizing x reached with
  | zero => omega
  | succ rounds ih =>
    rw [count]
    split
    next on =>
      have within : Within up start stop x := ⟨number, above, (goes_iff number ends).mp on⟩
      have next := within.next begins ends small forward
      apply ih next.1 next.2
      -- The step does not lead back and does not stand still, so it came nearer by a unit.
      have nearer := ahead_le_add (within.finite begins ends) small forward
      have moved := moves x within
      have before := within.before
      omega
    next past => exact ⟨_, rfl⟩

/-- A number of the interval that the step does not move is never passed. -/
theorem count_stalls {y : Float} (within : Within up start stop y)
    (stuck : ahead up (y + step) = ahead up y) {rounds : Nat} {reached : List Value}
    (number : ofFloat x ≠ .nan) (above : ahead up start ≤ ahead up x)
    (behind : ahead up x ≤ ahead up y) :
    count (goes up stop) step rounds x reached = none := by
  induction rounds generalizing x reached with
  | zero => rfl
  | succ rounds ih =>
    -- The number is not past the stuck one, and so before the end: the count goes on, and the next
    -- number is not past it either.
    have here : Within up start stop x := ⟨number, above, behind.trans_lt within.before⟩
    have next := here.next begins ends small forward
    rw [count, if_pos ((goes_iff number ends).mpr here.before)]
    apply ih next.1 next.2
    rw [← stuck]
    exact ahead_add_mono (here.finite begins ends) (within.finite begins ends) small behind

/-- What a count returns was there before, or lies in the interval. -/
theorem within_of_count {rounds : Nat} {reached values : List Value}
    (number : ofFloat x ≠ .nan) (above : ahead up start ≤ ahead up x)
    (counted : count (goes up stop) step rounds x reached = some values) :
    ∀ value ∈ values, value ∈ reached ∨ ∃ y, value = .ofNumber y ∧ Within up start stop y := by
  -- On the rounds: as long as the loop goes on, the number at hand is in the interval.
  induction rounds generalizing x reached with
  | zero => simp [count] at counted
  | succ rounds ih =>
    rw [count] at counted
    split at counted
    next on =>
      have within : Within up start stop x := ⟨number, above, (goes_iff number ends).mp on⟩
      have next := within.next begins ends small forward
      intro value member
      rcases ih next.1 next.2 counted value member with before | later
      · rcases List.mem_cons.mp before with rfl | before
        · exact .inr ⟨x, rfl, within⟩
        · exact .inl before
      · exact .inr later
    next past =>
      obtain rfl := Option.some.inj counted
      exact fun value member => .inl (List.mem_reverse.mp member)

end

/-! ### The whole count -/

/-- The numbers of a count: from the start on, up or down as the step leads, and before the
end. -/
def InRange (start stop step x : Float) : Prop :=
  0.0 < step ∧ start ≤ x ∧ x < stop ∨ step < 0.0 ∧ stop < x ∧ x ≤ start

theorem forward_up (small : Finite step) : 0.0 < step ↔ 0 < ahead true step := by
  have zero : ofFloat 0.0 ≠ .nan := by decide
  rw [lt_iff zero small.number, units_nothing]
  rfl

theorem forward_down (small : Finite step) : step < 0.0 ↔ 0 < ahead false step := by
  have zero : ofFloat 0.0 ≠ .nan := by decide
  rw [lt_iff small.number zero, units_nothing]
  exact Int.neg_pos.symm

theorem inRange_iff (begins : Finite start) (ends : Finite stop) (small : Finite step)
    (number : ofFloat x ≠ .nan) :
    InRange start stop step x ↔ ∃ up, 0 < ahead up step ∧ Within up start stop x := by
  have above := le_iff begins.number number
  have below := lt_iff number ends.number
  have above' := le_iff number begins.number
  have below' := lt_iff ends.number number
  rw [InRange, forward_up small, forward_down small, above, below, above', below']
  -- Counting down, `ahead` turns the sign of every number round.
  constructor
  · rintro (⟨forward, reached, before⟩ | ⟨forward, before, reached⟩)
    · exact ⟨true, forward, number, reached, before⟩
    · refine ⟨false, forward, number, ?_, ?_⟩ <;>
        simp only [ahead, Bool.false_eq_true, if_false] <;> omega
  · rintro ⟨up, forward, -, reached, before⟩
    cases up
    · right
      simp only [ahead, Bool.false_eq_true, if_false] at forward reached before ⊢
      omega
    · left
      simp only [ahead, if_true] at forward reached before ⊢
      omega

/-- A step that leads towards the end is counted with. -/
theorem rangeFrom_forward (begins : Number.Finite start) (ends : Number.Finite stop)
    (small : Number.Finite step) (forward : 0 < ahead up step)
    (apart : ahead up start < ahead up stop) (limit : Nat) :
    rangeFrom limit start stop step = count (goes up stop) step limit start [] := by
  have upward := lt_iff begins.number ends.number
  have downward := lt_iff ends.number begins.number
  have up_step := forward_up small
  have down_step := forward_down small
  -- Upwards is tested first, and a count downwards has to fail that test.
  cases up
  · simp only [ahead, Bool.false_eq_true, if_false] at apart
    have down : stop < start ∧ step < 0.0 := ⟨downward.mpr (by omega), down_step.mpr forward⟩
    have up : ¬(start < stop ∧ 0.0 < step) := by
      rintro ⟨before, -⟩
      have order := upward.mp before
      omega
    rw [rangeFrom, if_neg (by simpa using up), if_pos (by simpa using down)]
    rfl
  · have up : start < stop ∧ 0.0 < step := ⟨upward.mpr apart, up_step.mpr forward⟩
    rw [rangeFrom, if_pos (by simpa using up)]
    rfl

/-- A step that leads away from the end, or nowhere, counts nothing. -/
theorem rangeFrom_away (begins : Number.Finite start) (ends : Number.Finite stop)
    (small : Number.Finite step)
    (away : ∀ up, 0 < ahead up step → ¬ ahead up start < ahead up stop) (limit : Nat) :
    rangeFrom limit start stop step = some [] := by
  have up : ¬(start < stop ∧ 0.0 < step) := by
    rintro ⟨before, positive⟩
    exact away true ((forward_up small).mp positive)
      ((lt_iff begins.number ends.number).mp before)
  have down : ¬(stop < start ∧ step < 0.0) := by
    rintro ⟨before, negative⟩
    apply away false ((forward_down small).mp negative)
    have order := (lt_iff ends.number begins.number).mp before
    exact Int.neg_lt_neg order
  rw [rangeFrom, if_neg (by simpa using up), if_neg (by simpa using down)]

theorem beq_add_iff (finite : Number.Finite x) (small : Number.Finite step) (up : Bool) :
    (x + step == x) = true ↔ ahead up (x + step) = ahead up x := by
  rw [beq_iff (add_spec finite small).1 finite.number]
  cases up
  · exact neg_inj.symm
  · exact Iff.rfl

/-- A count finishes exactly when its step moves every number of the interval. -/
theorem rangeFrom_finishes_iff (begins : Number.Finite start) (ends : Number.Finite stop)
    (small : Number.Finite step) :
    (∃ limit elements, rangeFrom limit start stop step = some elements) ↔
      ∀ x, Number.Finite x → InRange start stop step x → ¬(x + step == x) = true := by
  constructor
  · rintro ⟨limit, elements, counted⟩ x finite inside stuck
    obtain ⟨up, forward, within⟩ := (inRange_iff begins ends small finite.number).mp inside
    -- The count comes to the number that stays or to one in front of it, and never gets past it.
    rw [rangeFrom_forward begins ends small forward (within.reached.trans_lt within.before),
      count_stalls begins ends small forward within ((beq_add_iff finite small up).mp stuck)
        begins.number (le_refl _) within.reached] at counted
    exact absurd counted (by simp)
  · intro moves
    by_cases heads : ∃ up, 0 < ahead up step ∧ ahead up start < ahead up stop
    · obtain ⟨up, forward, apart⟩ := heads
      refine ⟨(ahead up stop - ahead up start).toNat + 1, ?_⟩
      simp only [rangeFrom_forward begins ends small forward apart]
      apply count_finishes begins ends small forward _ begins.number (le_refl _) (by omega)
      intro y within stuck
      have finite := within.finite begins ends
      exact moves y finite ((inRange_iff begins ends small within.number).mpr ⟨up, forward, within⟩)
        ((beq_add_iff finite small up).mpr stuck)
    · exact ⟨0, [], rangeFrom_away begins ends small (by simpa using heads) 0⟩

/-- The elements of a count lie in its interval. -/
theorem inRange_of_rangeFrom (begins : Number.Finite start) (ends : Number.Finite stop)
    (small : Number.Finite step) {limit : Nat} {elements : List Value}
    (counted : rangeFrom limit start stop step = some elements) :
    ∀ value ∈ elements, ∃ x, Number.Finite x ∧ value = .ofNumber x ∧ InRange start stop step x := by
  intro value member
  by_cases heads : ∃ up, 0 < ahead up step ∧ ahead up start < ahead up stop
  · obtain ⟨up, forward, apart⟩ := heads
    rw [rangeFrom_forward begins ends small forward apart] at counted
    rcases within_of_count begins ends small forward begins.number (le_refl _) counted value member
      with nothing | ⟨x, rfl, within⟩
    · simp at nothing
    · exact ⟨x, within.finite begins ends, rfl,
        (inRange_iff begins ends small within.number).mpr ⟨up, forward, within⟩⟩
  · rw [rangeFrom_away begins ends small (by simpa using heads)] at counted
    obtain rfl := Option.some.inj counted
    simp at member

/-! ### The call -/

/-- A call with three numbers makes a new array of what is counted. -/
theorem call_range (limit : Nat) (start stop step : Float) (w₁ w₂ w₃ : Option Int) (span : Span)
    (machine : Machine) :
    call .range limit [.number start w₁, .number stop w₂, .number step w₃] span machine =
      match rangeFrom limit start stop step with
      | none => .error .exhausted machine
      | some elements => .ok (.array machine.nextIdentity elements)
          { machine with nextIdentity := machine.nextIdentity + 1 } := by
  have arguments : rangeArguments [.number start w₁, .number stop w₂, .number step w₃] =
      .ok (start, stop, step) := rfl
  simp only [call, arguments]
  cases counted : rangeFrom limit start stop step with
  | none => rfl
  | some elements => rfl

theorem rangeFrom_of_call {limit : Nat} {start stop step : Float} {w₁ w₂ w₃ : Option Int}
    {span : Span} {machine after : Machine} {id : Nat} {elements : List Value}
    (called : call .range limit [.number start w₁, .number stop w₂, .number step w₃] span machine =
      .ok (.array id elements) after) :
    rangeFrom limit start stop step = some elements := by
  rw [call_range] at called
  cases counted : rangeFrom limit start stop step with
  | none => simp [counted] at called
  | some found =>
    simp only [counted, EStateM.Result.ok.injEq, Value.array.injEq] at called
    rw [called.1.2]

/-- A call of `range` with three finite numbers returns, given rounds enough, exactly when its step
moves every number of the interval; and all that it returns are numbers of the interval. -/
theorem range_finishes_iff {start stop step : Float} (begins : Number.Finite start)
    (ends : Number.Finite stop) (small : Number.Finite step) (w₁ w₂ w₃ : Option Int) (span : Span)
    (machine : Machine) :
    ((∃ limit id elements after,
        call .range limit [.number start w₁, .number stop w₂, .number step w₃] span machine =
          .ok (.array id elements) after) ↔
      ∀ x, Number.Finite x → InRange start stop step x → ¬(x + step == x) = true) ∧
    ∀ limit id elements after,
      call .range limit [.number start w₁, .number stop w₂, .number step w₃] span machine =
          .ok (.array id elements) after →
        ∀ value ∈ elements,
          ∃ x, Number.Finite x ∧ value = .ofNumber x ∧ InRange start stop step x := by
  constructor
  · rw [← rangeFrom_finishes_iff begins ends small]
    constructor
    · rintro ⟨limit, id, elements, after, called⟩
      exact ⟨limit, elements, rangeFrom_of_call called⟩
    · rintro ⟨limit, elements, counted⟩
      exact ⟨limit, machine.nextIdentity, elements, _, by rw [call_range, counted]⟩
  · intro limit id elements after called
    exact inRange_of_rangeFrom begins ends small (rangeFrom_of_call called)

/-- Counting from 0 to 1 in quarters ends, so a quarter moves every double in between. -/
theorem range_quarters :
    Number.Finite 0.0 ∧ Number.Finite 1.0 ∧ Number.Finite 0.25 ∧
      (∀ x, Number.Finite x → InRange 0.0 1.0 0.25 x → ¬(x + 0.25 == x) = true) ∧
      ∀ value ∈ [Value.ofNumber 0.0, .ofNumber 0.25, .ofNumber 0.5, .ofNumber 0.75],
        ∃ x, Number.Finite x ∧ value = .ofNumber x ∧ InRange 0.0 1.0 0.25 x := by
  have zero : Number.Finite 0.0 := ⟨false, 0, -1074, rfl⟩
  have one : Number.Finite 1.0 := ⟨false, 2 ^ 52, -52, rfl⟩
  have quarter : Number.Finite 0.25 := ⟨false, 2 ^ 52, -54, rfl⟩
  have finishes := range_finishes_iff zero one quarter none none none .zero .initial
  refine ⟨zero, one, quarter, finishes.1.mp ⟨5, 0, _, _, rfl⟩, finishes.2 5 0 _ _ rfl⟩

/-- From `2 ^ 53` on a step of 1 is lost in rounding, and the count never ends. -/
theorem range_endless :
    Number.Finite 9007199254740992.0 ∧ Number.Finite 9007199254740994.0 ∧ Number.Finite 1.0 ∧
      ¬∃ limit id elements after,
        call .range limit [.number 9007199254740992.0 none, .number 9007199254740994.0 none,
          .number 1.0 none] .zero .initial = .ok (.array id elements) after := by
  have start : Number.Finite 9007199254740992.0 := ⟨false, 2 ^ 52, 1, rfl⟩
  have stop : Number.Finite 9007199254740994.0 := ⟨false, 2 ^ 52 + 1, 1, rfl⟩
  have one : Number.Finite 1.0 := ⟨false, 2 ^ 52, -52, rfl⟩
  refine ⟨start, stop, one, ?_⟩
  rintro ⟨limit, id, elements, after, called⟩
  have moves := (rangeFrom_finishes_iff start stop one).mp
    ⟨limit, elements, rangeFrom_of_call called⟩
  apply moves 9007199254740992.0 start
  · left
    decide
  · decide

end Native
end Tide
