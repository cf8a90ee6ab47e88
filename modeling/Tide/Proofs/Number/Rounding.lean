import Mathlib
import Tide.Number.Shortest
import Tide.Proofs.Number.Bits

/-!
# Numbers that round to a double

Every number of the interval around a double is rounded to that double. The unit of the rounding is
found first: it is the one at which the number has 53 bits before the point, or the least one there
is. Around a power of two the number may lie just below and then has half the unit; its mantissa
rounds up to `2 ^ 53` there, and the carry into the exponent gives the same bits.
-/
namespace Tide

namespace Binary64

theorem roundHalfEven_eq {num den k : Nat} (positive : 0 < den)
    (above : 2 * k * den < 2 * num + den ∨ k % 2 = 0 ∧ 2 * k * den ≤ 2 * num + den)
    (below : 2 * num < 2 * k * den + den ∨ k % 2 = 0 ∧ 2 * num ≤ 2 * k * den + den) :
    roundHalfEven num den = k := by
  have parts := Nat.div_add_mod num den
  have small := Nat.mod_lt num positive
  -- Only the quotient and the number above it are near enough.
  have low : num / den ≤ k := by
    by_contra more
    have step : den * (k + 1) ≤ den * (num / den) := Nat.mul_le_mul_left den (by omega)
    rw [Nat.mul_add, Nat.mul_one] at step
    have swap : 2 * k * den = 2 * (den * k) := by ring
    omega
  have high : k ≤ num / den + 1 := by
    by_contra less
    have step : den * (num / den + 2) ≤ den * k := Nat.mul_le_mul_left den (by omega)
    rw [Nat.mul_add] at step
    have swap : 2 * k * den = 2 * (den * k) := by ring
    omega
  have product : 2 * k * den = 2 * (den * k) := by ring
  unfold roundHalfEven
  simp only
  obtain same | next : k = num / den ∨ k = num / den + 1 := by omega
  · rw [← same] at parts ⊢
    rw [if_neg (by omega)]
  · have expand : den * k = den * (num / den) + den := by rw [next, Nat.mul_add, Nat.mul_one]
    rw [if_pos (by omega), next]

/-- The same for fractions. -/
theorem roundHalfEven_of_near {num den k : Nat} (positive : 0 < den)
    (above : (k : ℚ) - 1 / 2 < num / den ∨ k % 2 = 0 ∧ (k : ℚ) - 1 / 2 ≤ num / den)
    (below : (num : ℚ) / den < k + 1 / 2 ∨ k % 2 = 0 ∧ (num : ℚ) / den ≤ k + 1 / 2) :
    roundHalfEven num den = k := by
  have size : (0 : ℚ) < den := by exact_mod_cast positive
  -- Multiplied by the denominator, the bounds are bounds on whole numbers.
  refine roundHalfEven_eq positive ?_ ?_
  · refine above.imp (fun less => ?_) fun ⟨even, less⟩ => ⟨even, ?_⟩
    · rw [lt_div_iff₀ size] at less
      have whole : (2 * k * den : ℚ) < 2 * num + den := by linarith
      exact_mod_cast whole
    · rw [le_div_iff₀ size] at less
      have whole : (2 * k * den : ℚ) ≤ 2 * num + den := by linarith
      exact_mod_cast whole
  · refine below.imp (fun less => ?_) fun ⟨even, less⟩ => ⟨even, ?_⟩
    · rw [div_lt_iff₀ size] at less
      have whole : (2 * num : ℚ) < 2 * k * den + den := by linarith
      exact_mod_cast whole
    · rw [div_le_iff₀ size] at less
      have whole : (2 * num : ℚ) ≤ 2 * k * den + den := by linarith
      exact_mod_cast whole

/-! ### The unit -/

theorem inUnits_eq {num den : Nat} (exponent : Int) :
    ((inUnits num den exponent).1 : ℚ) / (inUnits num den exponent).2 =
      num / den / 2 ^ exponent := by
  unfold inUnits
  split
  next negative =>
    obtain ⟨n, rfl⟩ : ∃ n : Nat, exponent = -(n : Int) := ⟨(-exponent).toNat, by omega⟩
    simp only [Nat.pow_eq, neg_neg, Int.toNat_natCast, Nat.cast_mul, Nat.cast_pow, Nat.cast_ofNat,
      zpow_neg, zpow_natCast]
    field_simp
  next positive =>
    obtain ⟨n, rfl⟩ : ∃ n : Nat, exponent = (n : Int) := ⟨exponent.toNat, by omega⟩
    simp only [Nat.pow_eq, Int.toNat_natCast, Nat.cast_mul, Nat.cast_pow, Nat.cast_ofNat,
      zpow_natCast]
    field_simp

theorem inUnits_pos {num den : Nat} (positive : 0 < den) (exponent : Int) :
    0 < (inUnits num den exponent).2 := by
  unfold inUnits
  split
  · exact positive
  · exact Nat.mul_pos positive (Nat.pow_pos (by decide))

theorem log2_bounds {n : Nat} (positive : 0 < n) :
    (2 : ℚ) ^ (n.log2 : Int) ≤ n ∧ (n : ℚ) < 2 ^ ((n.log2 : Int) + 1) := by
  constructor
  · rw [zpow_natCast]
    exact_mod_cast Nat.log2_self_le (Nat.pos_iff_ne_zero.mp positive)
  · have less := @Nat.lt_log2_self n
    have whole : ((n.log2 : Int) + 1) = ((n.log2 + 1 : Nat) : Int) := by push_cast; rfl
    rw [whole, zpow_natCast]
    exact_mod_cast less

theorem inUnits_lt_iff {num den : Nat} (positive : 0 < den) (exponent : Int) (k : Nat) :
    (inUnits num den exponent).1 < (inUnits num den exponent).2 * k ↔
      (num : ℚ) / den < k * 2 ^ exponent := by
  have unit : (0 : ℚ) < (inUnits num den exponent).2 := by
    exact_mod_cast inUnits_pos positive exponent
  rw [← div_lt_iff₀ (by positivity), ← inUnits_eq, div_lt_iff₀ unit, mul_comm (k : ℚ)]
  exact_mod_cast Iff.rfl

/-- The quotient of two numbers, by their logarithms. -/
theorem div_bounds {num den : Nat} (numPos : 0 < num) (positive : 0 < den) :
    (2 : ℚ) ^ ((num.log2 : Int) - den.log2 - 1) ≤ num / den ∧
      (num : ℚ) / den < 2 ^ ((num.log2 : Int) - den.log2 + 1) := by
  have two : (2 : ℚ) ≠ 0 := by norm_num
  have size : (0 : ℚ) < den := by exact_mod_cast positive
  obtain ⟨numLow, numHigh⟩ := log2_bounds numPos
  obtain ⟨denLow, denHigh⟩ := log2_bounds positive
  -- A logarithm is rounded down, so the quotient may be one power off on either side.
  constructor
  · rw [le_div_iff₀ size]
    calc (2 : ℚ) ^ ((num.log2 : Int) - den.log2 - 1) * den
        ≤ 2 ^ ((num.log2 : Int) - den.log2 - 1) * 2 ^ ((den.log2 : Int) + 1) := by gcongr
      _ = 2 ^ (num.log2 : Int) := by
        rw [← zpow_add₀ two]
        congr 1
        ring
      _ ≤ num := numLow
  · rw [div_lt_iff₀ size]
    calc (num : ℚ) < 2 ^ ((num.log2 : Int) + 1) := numHigh
      _ = 2 ^ ((num.log2 : Int) - den.log2 + 1) * 2 ^ (den.log2 : Int) := by
        rw [← zpow_add₀ two]
        congr 1
        ring
      _ ≤ 2 ^ ((num.log2 : Int) - den.log2 + 1) * den := by gcongr

/-- The unit of a number: in units of it the number is below `2 ^ 53`, and from `2 ^ 52` on unless
the unit is the least one. -/
theorem unitExponent_spec {num den : Nat} (numPos : 0 < num) (positive : 0 < den) :
    -1074 ≤ unitExponent num den ∧ (num : ℚ) / den < 2 ^ (53 + unitExponent num den) ∧
      (unitExponent num den = -1074 ∨ 2 ^ (52 + unitExponent num den) ≤ (num : ℚ) / den) := by
  obtain ⟨lower, upper⟩ := div_bounds numPos positive
  have test := @inUnits_lt_iff num den positive ((num.log2 : Int) - den.log2 - 53)
    (Nat.pow 2 53)
  have unit : ((Nat.pow 2 53 : Nat) : ℚ) * 2 ^ ((num.log2 : Int) - den.log2 - 53) =
      2 ^ ((num.log2 : Int) - den.log2) := by
    rw [Nat.pow_eq, Nat.cast_pow, Nat.cast_ofNat, ← zpow_natCast, ← zpow_add₀ (by norm_num)]
    congr 1
    push_cast
    ring
  rw [unit] at test
  -- The logarithms leave two candidates, and the comparison chooses between them.
  obtain ⟨exact_, choice, less, more⟩ : ∃ exact_ : Int,
      unitExponent num den = max exact_ (-1074) ∧ (num : ℚ) / den < 2 ^ (53 + exact_) ∧
      2 ^ (52 + exact_) ≤ (num : ℚ) / den := by
    by_cases below : (num : ℚ) / den < 2 ^ ((num.log2 : Int) - den.log2)
    · refine ⟨(num.log2 : Int) - den.log2 - 53, ?_, ?_, ?_⟩
      · simp only [unitExponent]
        rw [if_pos (test.mpr below)]
      · convert below using 2
        omega
      · convert lower using 2
        omega
    · refine ⟨(num.log2 : Int) - den.log2 - 53 + 1, ?_, ?_, ?_⟩
      · simp only [unitExponent]
        rw [if_neg (fun less => below (test.mp less))]
      · convert upper using 2
        omega
      · have same : 52 + ((num.log2 : Int) - den.log2 - 53 + 1) = num.log2 - den.log2 := by omega
        rw [same]
        exact not_lt.mp below
  rw [choice]
  refine ⟨le_max_right _ _, ?_, ?_⟩
  · refine lt_of_lt_of_le less (zpow_le_zpow_right₀ (by norm_num) ?_)
    have larger := le_max_left exact_ (-1074)
    omega
  · rcases le_total exact_ (-1074) with small | large
    · exact .inl (max_eq_right small)
    · rw [max_eq_left large]
      exact .inr more

end Binary64

/-! ### The interval of a double -/

/-- Between the ends of the interval, or at an end that belongs to it. -/
def Shortest.Interval.Holds (i : Interval) (x : ℚ) : Prop :=
  (i.low * 2 ^ i.exponent < x ∨ i.closed = true ∧ i.low * 2 ^ i.exponent ≤ x) ∧
    (x < i.high * 2 ^ i.exponent ∨ i.closed = true ∧ x ≤ i.high * 2 ^ i.exponent)

namespace Binary64

open Shortest

variable {mantissa : Nat} {exponent : Int} {x : ℚ}

/-- How far below a double its interval begins, in quarters of the unit. -/
def margin (mantissa : Nat) (exponent : Int) : Nat :=
  if mantissa = 2 ^ 52 ∧ exponent > -1074 then 1 else 2

theorem zpow_sub_two (exponent : Int) : (2 : ℚ) ^ (exponent - 2) = 2 ^ exponent / 4 := by
  rw [zpow_sub₀ (by norm_num)]
  norm_num

/-- The interval in units of the double. -/
theorem interval_holds_iff (mantissaPos : 0 < mantissa) :
    (interval mantissa exponent).Holds x ↔
      ((mantissa : ℚ) - margin mantissa exponent / 4 < x / 2 ^ exponent ∨
        mantissa % 2 = 0 ∧ (mantissa : ℚ) - margin mantissa exponent / 4 ≤ x / 2 ^ exponent) ∧
      (x / 2 ^ exponent < mantissa + 1 / 2 ∨
        mantissa % 2 = 0 ∧ x / 2 ^ exponent ≤ mantissa + 1 / 2) := by
  have unit : (0 : ℚ) < 2 ^ exponent := by positivity
  -- The interval is given in quarters of the unit.
  have low : ((interval mantissa exponent).low : ℚ) =
      4 * mantissa - margin mantissa exponent := by
    have fits : margin mantissa exponent ≤ 4 * mantissa := by
      unfold margin
      split <;> omega
    have same : (interval mantissa exponent).low = 4 * mantissa - margin mantissa exponent := by
      simp only [interval, margin, Nat.pow_eq]
    rw [same, Nat.cast_sub fits]
    push_cast
    rfl
  have high : ((interval mantissa exponent).high : ℚ) = 4 * mantissa + 2 := by
    simp [interval]
  have lowSide : ((interval mantissa exponent).low : ℚ) * 2 ^ (exponent - 2) =
      (mantissa - margin mantissa exponent / 4) * 2 ^ exponent := by
    rw [low, zpow_sub_two]
    ring
  have highSide : ((interval mantissa exponent).high : ℚ) * 2 ^ (exponent - 2) =
      (mantissa + 1 / 2) * 2 ^ exponent := by
    rw [high, zpow_sub_two]
    ring
  have closed : (interval mantissa exponent).closed = true ↔ mantissa % 2 = 0 := by
    simp [interval]
  have sameUnit : (interval mantissa exponent).exponent = exponent - 2 := rfl
  rw [Interval.Holds, sameUnit, lowSide, highSide, closed, lt_div_iff₀ unit, le_div_iff₀ unit,
    div_lt_iff₀ unit, div_le_iff₀ unit]

theorem pos_of_holds (mantissaPos : 0 < mantissa) (inside : (interval mantissa exponent).Holds x) :
    0 < x := by
  have unit : (0 : ℚ) < 2 ^ exponent := by positivity
  have large : (1 : ℚ) ≤ mantissa := by exact_mod_cast mantissaPos
  have margin_le : (margin mantissa exponent : ℚ) / 4 ≤ 1 / 2 := by
    unfold margin
    split <;> norm_num
  have positive : 0 < x / 2 ^ exponent := by
    rcases ((interval_holds_iff mantissaPos).mp inside).1 with above | ⟨-, above⟩ <;> linarith
  exact (div_pos_iff_of_pos_right unit).mp positive

/-- The unit of a number around a double is that of the double, or half of it just below a power
of two. -/
theorem unitExponent_of_holds {num den : Nat} (canonical : Canonical mantissa exponent)
    (mantissaPos : 0 < mantissa) (numerator : 0 < num) (positive : 0 < den)
    (inside : (interval mantissa exponent).Holds (num / den)) :
    unitExponent num den = exponent ∨
      mantissa = 2 ^ 52 ∧ -1074 < exponent ∧ unitExponent num den = exponent - 1 := by
  obtain ⟨least, less, reached⟩ := unitExponent_spec numerator positive
  generalize unitExponent num den = unit at *
  obtain ⟨small, bottom, -, normal⟩ := canonical
  obtain ⟨above, below⟩ := (interval_holds_iff mantissaPos).mp inside
  generalize (num : ℚ) / den = x at *
  have size : (0 : ℚ) < 2 ^ exponent := by positivity
  have one : (1 : ℚ) < 2 := by norm_num
  have up (k : Int) : (2 : ℚ) ^ (k + exponent) = 2 ^ k * 2 ^ exponent := zpow_add₀ (by norm_num) _ _
  have smallQ : (mantissa : ℚ) ≤ 2 ^ (53 : Int) - 1 := by
    have whole : mantissa + 1 ≤ 2 ^ 53 := small
    have cast : (mantissa : ℚ) + 1 ≤ 2 ^ 53 := by exact_mod_cast whole
    have same : (2 : ℚ) ^ (53 : Int) = 2 ^ 53 := by norm_num
    linarith
  -- The interval of a double ends below the next power of two.
  have notAbove : unit ≤ exponent := by
    rcases reached with same | reached
    · omega
    · have top : x < 2 ^ (53 + exponent) := by
        rw [up, ← div_lt_iff₀ size]
        rcases below with below | ⟨-, below⟩ <;> linarith
      have order := (zpow_lt_zpow_iff_right₀ one).mp (lt_of_le_of_lt reached top)
      omega
  rcases normal with normal | rfl
  · have normalQ : (2 : ℚ) ^ (52 : Int) ≤ mantissa := by
      have cast : ((2 ^ 52 : Nat) : ℚ) ≤ mantissa := by exact_mod_cast normal
      convert cast using 1
      norm_num
    have lower (k : Int) (bound : (2 : ℚ) ^ k ≤ mantissa - margin mantissa exponent / 4) :
        k + exponent < 53 + unit := by
      have bottom : (2 : ℚ) ^ (k + exponent) ≤ x := by
        rw [up, ← le_div_iff₀ size]
        rcases above with above | ⟨-, above⟩ <;> linarith
      exact (zpow_lt_zpow_iff_right₀ one).mp (lt_of_le_of_lt bottom less)
    -- Just below a power of two the doubles are twice as dense: only there the unit may be the
    -- half.
    by_cases edge : mantissa = 2 ^ 52 ∧ exponent > -1074
    · have order := lower 51 (by
        rw [margin, if_pos edge]
        have half : (2 : ℚ) ^ (51 : Int) ≤ 2 ^ (52 : Int) - 1 := by norm_num
        push_cast
        linarith)
      rcases eq_or_ne unit exponent with same | other
      · exact .inl same
      · exact .inr ⟨edge.1, edge.2, by omega⟩
    · left
      by_cases bottom : exponent = -1074
      · omega
      · have larger : 2 ^ 52 + 1 ≤ mantissa := by
          have differs : mantissa ≠ 2 ^ 52 := fun same => edge ⟨same, by omega⟩
          omega
        have largerQ : (2 : ℚ) ^ (52 : Int) + 1 ≤ mantissa := by
          have cast : ((2 ^ 52 + 1 : Nat) : ℚ) ≤ mantissa := by exact_mod_cast larger
          convert cast using 1
          norm_num
        have order := lower 52 (by
          rw [margin, if_neg edge]
          push_cast
          linarith)
        omega
  · exact .inl (by omega)

-- The definition is opened once, while nothing is known of the unit: on the unit itself the
-- kernel would start to compute.
theorem nearestBits_opened (num den : Nat) :
    nearestBits num den = if num = 0 then 0 else
      let exponent := unitExponent num den
      let (n, d) := inUnits num den exponent
      let mantissa := roundHalfEven n d
      if mantissa < Nat.pow 2 52 then mantissa
      else (exponent + 1075).toNat * Nat.pow 2 52 + (mantissa - Nat.pow 2 52) := by
  with_unfolding_all rfl

theorem assembled_eq_encode {num den n d : Nat} (exponent : Int)
    (units : inUnits num den exponent = (n, d)) :
    (let exponent := exponent
      let (n, d) := inUnits num den exponent
      let mantissa := roundHalfEven n d
      if mantissa < Nat.pow 2 52 then mantissa
      else (exponent + 1075).toNat * Nat.pow 2 52 + (mantissa - Nat.pow 2 52)) =
    encode (roundHalfEven n d) exponent := by
  simp only [units, encode, Nat.pow_eq]

theorem nearestBits_eq {num den n d : Nat} (numPos : 0 < num)
    (units : inUnits num den (unitExponent num den) = (n, d)) :
    nearestBits num den = encode (roundHalfEven n d) (unitExponent num den) :=
  (nearestBits_opened num den).trans
    ((if_neg (Nat.pos_iff_ne_zero.mp numPos)).trans (assembled_eq_encode _ units))

/-- Rounding takes every number around a double to the double. -/
theorem nearestBits_of_holds {num den : Nat} (canonical : Canonical mantissa exponent)
    (mantissaPos : 0 < mantissa) (numerator : 0 < num) (positive : 0 < den)
    (inside : (interval mantissa exponent).Holds (num / den)) :
    nearestBits num den = encode mantissa exponent := by
  have unit := unitExponent_of_holds canonical mantissaPos numerator positive inside
  obtain ⟨-, less, -⟩ := unitExponent_spec numerator positive
  obtain ⟨above, below⟩ := (interval_holds_iff mantissaPos).mp inside
  have filled := @inUnits_pos num den positive (unitExponent num den)
  have units := @inUnits_eq num den (unitExponent num den)
  rcases parts : inUnits num den (unitExponent num den) with ⟨n, d⟩
  rw [nearestBits_eq numerator parts]
  rw [parts] at filled units
  generalize unitExponent num den = e at *
  generalize (num : ℚ) / den = x at *
  rcases unit with rfl | ⟨rfl, up, rfl⟩
  · rw [← units] at above below
    congr 1
    refine roundHalfEven_of_near filled ?_ below
    have margin_le : (margin mantissa e : ℚ) / 4 ≤ 1 / 2 := by
      unfold margin
      split <;> norm_num
    refine above.imp (fun less => ?_) fun ⟨even, less⟩ => ⟨even, ?_⟩ <;> linarith
  · have halved : (2 : ℚ) ^ exponent = 2 ^ (exponent - 1) * 2 := by
      rw [zpow_sub₀ (by norm_num)]
      norm_num
    have size : (0 : ℚ) < 2 ^ (exponent - 1) := by positivity
    -- The mantissa of the smaller unit is half a unit from `2 ^ 53` at most, and rounds up to it.
    have rounded : roundHalfEven n d = 2 ^ 53 := by
      refine roundHalfEven_of_near filled (.inr ⟨by norm_num, ?_⟩) (.inl ?_)
      · have low : (2 ^ 52 : ℚ) - 1 / 4 ≤ x / 2 ^ exponent := by
          rw [margin, if_pos ⟨rfl, up⟩] at above
          push_cast at above
          rcases above with above | ⟨-, above⟩ <;> linarith
        rw [halved, ← div_div, le_div_iff₀ (by norm_num : (0 : ℚ) < 2), ← units] at low
        push_cast
        linarith
      · have top : (2 : ℚ) ^ (53 + (exponent - 1)) = 2 ^ 53 * 2 ^ (exponent - 1) := by
          rw [zpow_add₀ (by norm_num)]
          norm_num
        rw [top, ← div_lt_iff₀ size, ← units] at less
        push_cast
        linarith
    rw [rounded]
    unfold encode
    rw [if_neg (by omega), if_neg (by omega)]
    omega

end Binary64
end Tide
