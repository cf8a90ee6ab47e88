import Mathlib
import Tide.Proofs.Eval.Range
import Tide.Proofs.Number.Whole

/-!
# Counting in whole numbers

A count whose start, end and step are whole numbers gives the arithmetic progression from the start
to the last number in front of the end. It is exact as long as the start is at most `2 ^ 53` in
size, and the end and the step together are: the number behind the last one overshoots the end by
less than a step, so no round leaves the whole numbers that are doubles.

The number of rounds is the distance divided by the step and rounded up. It depends only on which
multiples of the step still lie in front of the end, and that is how the loop is compared with it:
the loop goes on at each of the first so many numbers, and stops at the next one.
-/
namespace Tide.Native

open Number

variable {start stop step : Int} {x y z : Float}

/-! ### The number of rounds -/

/-- How many numbers a count goes through. -/
def rounds (start stop step : Int) : Nat :=
  if (stop - start).sign = step.sign then ⌈((stop - start : Int) : ℚ) / step⌉₊ else 0

/-- In the first so many rounds, and only in them, the number lies in front of the end. -/
theorem lt_rounds_iff (moves : step ≠ 0) (i : Nat) :
    i < rounds start stop step ↔
      0 < step ∧ start + i * step < stop ∨ step < 0 ∧ stop < start + i * step := by
  have natural : (0 : Int) ≤ i := Int.natCast_nonneg i
  -- A negative step turns the comparison round when it is divided by, so the directions are apart.
  rcases lt_or_gt_of_ne moves with down | up
  · have drop : i * step ≤ 0 := mul_nonpos_of_nonneg_of_nonpos natural down.le
    have signs : (stop - start).sign = step.sign ↔ stop - start < 0 := by
      rw [Int.sign_eq_neg_one_of_neg down, Int.sign_eq_neg_one_iff_neg]
    by_cases apart : stop - start < 0
    · have negative : (step : ℚ) < 0 := by exact_mod_cast down
      have inside : (i : ℚ) < ((stop - start : Int) : ℚ) / step ↔ stop - start < i * step := by
        rw [lt_div_iff_of_neg negative]
        exact_mod_cast Iff.rfl
      rw [rounds, if_pos (signs.mpr apart), Nat.lt_ceil, inside]
      omega
    · rw [rounds, if_neg (mt signs.mp apart)]
      omega
  · have rise : 0 ≤ i * step := mul_nonneg natural up.le
    have signs : (stop - start).sign = step.sign ↔ 0 < stop - start := by
      rw [Int.sign_eq_one_of_pos up, Int.sign_eq_one_iff_pos]
    by_cases apart : 0 < stop - start
    · have positive : (0 : ℚ) < step := by exact_mod_cast up
      have inside : (i : ℚ) < ((stop - start : Int) : ℚ) / step ↔ i * step < stop - start := by
        rw [lt_div_iff₀ positive]
        exact_mod_cast Iff.rfl
      rw [rounds, if_pos (signs.mpr apart), Nat.lt_ceil, inside]
      omega
    · rw [rounds, if_neg (mt signs.mp apart)]
      omega

/-- Counting the other way round takes as many rounds. -/
theorem rounds_neg (start stop step : Int) :
    rounds (-start) (-stop) (-step) = rounds start stop step := by
  have turned : -stop - -start = -(stop - start) := by ring
  simp only [rounds, turned, Int.sign_neg, neg_inj, Int.cast_neg, neg_div_neg_eq]

/-! ### The loop -/

/-- The first numbers of a progression. The first of all is the start itself, which may be a
negative zero. -/
def progression (x : Float) (start step : Int) (n : Nat) : List Value :=
  (List.range n).map fun i : Nat => .ofNumber (if i = 0 then x else ofInt (start + i * step))

theorem progression_succ (x : Float) (start step : Int) (n : Nat) :
    progression x start step (n + 1) =
      .ofNumber x :: progression (ofInt (start + step)) (start + step) step n := by
  unfold progression
  rw [List.range_succ_eq_map, List.map_cons, List.map_map, if_pos rfl]
  congr 2
  funext i
  cases i with
  | zero => simp
  | succ i =>
    simp only [Function.comp_apply, Nat.succ_eq_add_one, Nat.add_one_ne_zero, if_false]
    congr 2
    push_cast
    ring

/-- Whether `n` is still to come at `m`, counting up or down. -/
def Precedes (up : Bool) (m n : Int) : Prop := if up then m < n else n < m

theorem ahead_lt_iff {m n : Int} (up : Bool) (whole : Whole x m) (whole' : Whole y n) :
    ahead up x < ahead up y ↔ Precedes up m n := by
  have less := whole.units_lt_iff whole'
  have more := whole'.units_lt_iff whole
  cases up
  · simp only [ahead, Precedes, Bool.false_eq_true, if_false, neg_lt_neg_iff]
    exact more
  · simp only [ahead, Precedes, if_true]
    exact less

theorem ahead_pos_iff {n : Int} (up : Bool) (whole : Whole x n) :
    0 < ahead up x ↔ Precedes up 0 n := by
  have zero := whole_ofInt (n := 0) (by decide)
  have nothing : ahead up (ofInt 0) = 0 := by
    have value : units (ofInt 0) = 0 := by rw [zero.value, zero_mul]
    cases up <;> simp [ahead, value]
  rw [← ahead_lt_iff up zero whole, nothing]

theorem goes_whole_iff {m n : Int} (up : Bool) (whole : Whole x m) (ends : Whole y n) :
    goes up y x = true ↔ Precedes up m n :=
  (goes_iff whole.finite.number ends.finite).trans (ahead_lt_iff up whole ends)

/-- The first `n` numbers lie in front of the end, the one behind them does not, and none of them is
too large to be exact. -/
structure Course (up : Bool) (start stop step : Int) (n : Nat) : Prop where
  before : ∀ i < n, Precedes up (start + i * step) stop
  past : ¬ Precedes up (start + n * step) stop
  fits : ∀ i < n, (start + (i + 1 : Nat) * step).natAbs ≤ 2 ^ 53

namespace Course

variable {up : Bool} {n : Nat}

theorem first (course : Course up start stop step (n + 1)) :
    Precedes up start stop ∧ (start + step).natAbs ≤ 2 ^ 53 := by
  have before := course.before 0 (Nat.succ_pos n)
  have fits := course.fits 0 (Nat.succ_pos n)
  rw [Nat.cast_zero, zero_mul, add_zero] at before
  rw [Nat.zero_add, Nat.cast_one, one_mul] at fits
  exact ⟨before, fits⟩

/-- What is left after one round is a course from the second number on. -/
theorem tail (course : Course up start stop step (n + 1)) :
    Course up (start + step) stop step n := by
  have shift (i : Nat) : start + step + i * step = start + (i + 1 : Nat) * step := by
    push_cast
    ring
  constructor
  · intro i inside
    rw [shift]
    exact course.before (i + 1) (Nat.succ_lt_succ inside)
  · rw [shift]
    exact course.past
  · intro i inside
    rw [shift]
    exact course.fits (i + 1) (Nat.succ_lt_succ inside)

theorem past_of_zero (course : Course up start stop step 0) : ¬ Precedes up start stop := by
  have past := course.past
  rwa [Nat.cast_zero, zero_mul, add_zero] at past

end Course

theorem lt_rounds_iff_precedes {up : Bool} (forward : Precedes up 0 step) (i : Nat) :
    i < rounds start stop step ↔ Precedes up (start + i * step) stop := by
  cases up with
  | false =>
    have down : step < 0 := forward
    rw [lt_rounds_iff down.ne]
    exact ⟨fun inside => inside.resolve_left (fun up => absurd up.1 down.not_gt) |>.2,
      fun before => .inr ⟨down, before⟩⟩
  | true =>
    have up : 0 < step := forward
    rw [lt_rounds_iff up.ne']
    exact ⟨fun inside => inside.resolve_right (fun down => absurd down.1 up.not_gt) |>.2,
      fun before => .inl ⟨up, before⟩⟩

/-- The number of rounds is right for the loop. -/
theorem course_rounds {up : Bool} (begins : |start| ≤ 2 ^ 53) (ends : |stop| + |step| ≤ 2 ^ 53)
    (forward : Precedes up 0 step) : Course up start stop step (rounds start stop step) := by
  have inside := @lt_rounds_iff_precedes start stop step up forward
  refine ⟨fun i round => (inside i).mp round,
    fun before => lt_irrefl _ ((inside _).mpr before), fun i round => ?_⟩
  -- A number in front of the end lies between the start and the end, and the next one at most a
  -- step behind the end.
  have next : ((i + 1 : Nat) : Int) * step = i * step + step := by
    push_cast
    ring
  have before := (inside i).mp round
  have low := abs_le.mp begins
  have high := abs_le.mp (le_refl |stop|)
  rw [next]
  cases up with
  | false =>
    have down : step < 0 := forward
    have drop : i * step ≤ 0 := mul_nonpos_of_nonneg_of_nonpos (Int.natCast_nonneg i) down.le
    change stop < start + i * step at before
    rw [abs_of_neg down] at ends
    omega
  | true =>
    have up : 0 < step := forward
    have rise : 0 ≤ i * step := mul_nonneg (Int.natCast_nonneg i) up.le
    change start + i * step < stop at before
    rw [abs_of_pos up] at ends
    omega

/-- The loop goes through the progression. -/
theorem count_progression {up : Bool} {n limit : Nat} (course : Course up start stop step n)
    (begins : Whole x start) (ends : Whole y stop) (moves : Whole z step) (stepNonzero : step ≠ 0)
    (enough : n < limit) (reached : List Value) :
    count (goes up y) z limit x reached = some (reached.reverse ++ progression x start step n) := by
  have going := goes_whole_iff up begins ends
  -- Each round leads from a course to its tail, so the start is arbitrary.
  induction n generalizing start x limit reached with
  | zero =>
    obtain ⟨rest, rfl⟩ := Nat.exists_eq_add_of_lt enough
    rw [count, if_neg (mt going.mp course.past_of_zero)]
    simp [progression]
  | succ n ih =>
    obtain ⟨rest, rfl⟩ := Nat.exists_eq_add_of_lt enough
    obtain ⟨before, fits⟩ := course.first
    have next := whole_ofInt fits
    have shorter : n < n + 1 + rest := by omega
    have later := ih course.tail next shorter (.ofNumber x :: reached)
      (goes_whole_iff up next ends)
    rw [count, if_pos (going.mpr before), begins.add moves stepNonzero fits, later,
      progression_succ]
    simp

/-! ### The whole count -/

/-- Rounds enough for the numbers in front of the end are enough for the count. -/
theorem rangeFrom_whole (begins : Whole x start) (ends : Whole y stop) (moves : Whole z step)
    (stepNonzero : step ≠ 0) (bound : |stop| + |step| ≤ 2 ^ 53) {limit : Nat}
    (enough : rounds start stop step < limit) :
    rangeFrom limit x y z = some (progression x start step (rounds start stop step)) := by
  have startFits : |start| ≤ 2 ^ 53 := by
    rw [Int.abs_eq_natAbs]
    exact_mod_cast begins.fits
  by_cases heads : ∃ up, Precedes up 0 step ∧ Precedes up start stop
  · obtain ⟨up, forward, apart⟩ := heads
    rw [rangeFrom_forward begins.finite ends.finite moves.finite
      ((ahead_pos_iff up moves).mpr forward) ((ahead_lt_iff up begins ends).mpr apart)]
    exact count_progression (course_rounds startFits bound forward) begins ends moves stepNonzero
      enough []
  · -- The start is not in front of the end, so there is no round at all.
    have nothing : rounds start stop step = 0 := by
      by_contra round
      have first := (lt_rounds_iff stepNonzero 0).mp (Nat.pos_of_ne_zero round)
      rw [Nat.cast_zero, zero_mul, add_zero] at first
      rcases first with up | down
      · exact heads ⟨true, up⟩
      · exact heads ⟨false, down⟩
    rw [nothing, rangeFrom_away begins.finite ends.finite moves.finite]
    · rfl
    · intro up forward apart
      exact heads ⟨up, (ahead_pos_iff up moves).mp forward, (ahead_lt_iff up begins ends).mp apart⟩

/-- A call with three numbers that equal whole numbers, the step not zero. -/
theorem call_range_whole (startFits : |start| ≤ 2 ^ 53) (stopFits : |stop| + |step| ≤ 2 ^ 53)
    (stepNonzero : step ≠ 0) (startEqual : (x == ofInt start) = true)
    (stopEqual : (y == ofInt stop) = true) (stepEqual : (z == ofInt step) = true)
    (w₁ w₂ w₃ : Option Int) (span : Span) (machine : Machine) {limit : Nat}
    (enough : rounds start stop step < limit) :
    call .range limit [.number x w₁, .number y w₂, .number z w₃] span machine =
      .ok (.array machine.nextIdentity (progression x start step (rounds start stop step)))
        { machine with nextIdentity := machine.nextIdentity + 1 } := by
  have sizes : start.natAbs ≤ 2 ^ 53 ∧ stop.natAbs + step.natAbs ≤ 2 ^ 53 := by
    rw [Int.abs_eq_natAbs] at startFits
    rw [Int.abs_eq_natAbs, Int.abs_eq_natAbs] at stopFits
    omega
  have begins : Whole x start := whole_of_beq (by omega) startEqual
  have ends : Whole y stop := whole_of_beq (by omega) stopEqual
  have moves : Whole z step := whole_of_beq (by omega) stepEqual
  rw [call_range, rangeFrom_whole begins ends moves stepNonzero stopFits enough]

/-- A call of `range` with whole numbers, in which the start is at most `2 ^ 53` in size and the end
and the step together are, makes an array of the progression from the start in as many rounds as
the distance divided by the step makes, rounded up, or in none if the step leads away. These are the
numbers in front of the end, with none left out; and the call that is mirrored at zero goes through
as many. -/
theorem range_whole (startFits : |start| ≤ 2 ^ 53) (stopFits : |stop| + |step| ≤ 2 ^ 53)
    (stepNonzero : step ≠ 0) (startEqual : (x == ofInt start) = true)
    (stopEqual : (y == ofInt stop) = true) (stepEqual : (z == ofInt step) = true)
    (w₁ w₂ w₃ : Option Int) (span : Span) (machine : Machine) {limit : Nat}
    (enough : rounds start stop step < limit) :
    call .range limit [.number x w₁, .number y w₂, .number z w₃] span machine =
        .ok (.array machine.nextIdentity (progression x start step (rounds start stop step)))
          { machine with nextIdentity := machine.nextIdentity + 1 } ∧
      (∀ i : Nat, i < rounds start stop step ↔
        0 < step ∧ start + i * step < stop ∨ step < 0 ∧ stop < start + i * step) ∧
      ∀ x' y' z' : Float, (x' == ofInt (-start)) = true → (y' == ofInt (-stop)) = true →
        (z' == ofInt (-step)) = true →
        call .range limit [.number x' w₁, .number y' w₂, .number z' w₃] span machine =
          .ok (.array machine.nextIdentity
              (progression x' (-start) (-step) (rounds start stop step)))
            { machine with nextIdentity := machine.nextIdentity + 1 } := by
  refine ⟨call_range_whole startFits stopFits stepNonzero startEqual stopEqual stepEqual w₁ w₂ w₃
    span machine enough, lt_rounds_iff stepNonzero,
    fun x' y' z' startEqual' stopEqual' stepEqual' => ?_⟩
  have mirrored := rounds_neg start stop step
  have enough' : rounds (-start) (-stop) (-step) < limit := by rwa [mirrored]
  rw [← abs_neg] at startFits
  rw [← abs_neg stop, ← abs_neg step] at stopFits
  rw [← mirrored]
  exact call_range_whole startFits stopFits (neg_ne_zero.mpr stepNonzero) startEqual' stopEqual'
    stepEqual' w₁ w₂ w₃ span machine enough'

/-- From the least start there is to an end that a step divides, over a zero on the way. -/
theorem range_acrossZero :
    rounds (-9007199254740992) 4503599627370496 4503599627370496 = 3 ∧
      call .range 4 [.number (-9007199254740992.0) none, .number 4503599627370496.0 none,
          .number 4503599627370496.0 none] .zero .initial =
        .ok (.array 0 [.ofNumber (-9007199254740992.0), .ofNumber (-4503599627370496.0),
          .ofNumber 0.0]) { Machine.initial with nextIdentity := 1 } := by
  have three : rounds (-9007199254740992) 4503599627370496 4503599627370496 = 3 := by
    rw [rounds, if_pos (by decide)]
    norm_num
  have first : (-9007199254740992.0 == ofInt (-9007199254740992)) = true := by decide +kernel
  have last : (4503599627370496.0 == ofInt 4503599627370496) = true := by decide +kernel
  have enough : rounds (-9007199254740992) 4503599627370496 4503599627370496 < 4 := by
    rw [three]
    decide
  have counted := (range_whole (by decide) (by decide) (by decide) first last last none none none
    .zero .initial enough).1
  have half : -4503599627370496.0 = ofInt (-4503599627370496) :=
    (whole_of_beq (by decide) (by decide +kernel)).eq_ofInt (by decide)
  have numbers : progression (-9007199254740992.0) (-9007199254740992) 4503599627370496 3 =
      [.ofNumber (-9007199254740992.0), .ofNumber (-4503599627370496.0), .ofNumber 0.0] := by
    have zero : ofInt 0 = 0.0 := rfl
    rw [half, ← zero]
    simp [progression, List.range_succ]
  rw [three, numbers] at counted
  exact ⟨three, counted⟩

end Tide.Native
