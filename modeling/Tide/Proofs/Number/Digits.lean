import Mathlib
import Tide.Proofs.Number.Rounding

/-!
# The digits of a double

The digits chosen for a double lie in its interval, and so they round to it. A grid is searched only
as far as seventeen digits: at that width the nearer of the two neighbours of the double on the grid
is always in the interval.
-/
namespace Tide

/-- The number that a decimal stands for. -/
def Decimal.value (d : Decimal) : ℚ := d.significand * 10 ^ d.exponent

namespace Shortest

/-! ### Comparisons -/

theorem zpow_mul_pow (base : ℚ) (nonzero : base ≠ 0) (i : Int) :
    base ^ i * base ^ (-i).toNat = base ^ i.toNat := by
  rw [← zpow_natCast, ← zpow_natCast, ← zpow_add₀ nonzero]
  congr 1
  omega

/-- What both sides of a comparison are multiplied by. -/
def common (binary decimal : Int) : ℚ := 2 ^ (-binary).toNat * 10 ^ (-decimal).toNat

theorem common_pos (binary decimal : Int) : 0 < common binary decimal := by
  unfold common
  positivity

theorem scale_fst (a : Nat) (binary : Int) (b : Nat) (decimal : Int) :
    ((scale a binary b decimal).1 : ℚ) = a * 2 ^ binary * common binary decimal := by
  simp only [scale, Nat.pow_eq, Nat.cast_mul, Nat.cast_pow, Nat.cast_ofNat]
  rw [← zpow_mul_pow 2 (by norm_num) binary, common]
  ring

theorem scale_snd (a : Nat) (binary : Int) (b : Nat) (decimal : Int) :
    ((scale a binary b decimal).2 : ℚ) = b * 10 ^ decimal * common binary decimal := by
  simp only [scale, Nat.pow_eq, Nat.cast_mul, Nat.cast_pow, Nat.cast_ofNat]
  rw [← zpow_mul_pow 10 (by norm_num) decimal, common]
  ring

theorem scale_le_iff {a : Nat} {binary : Int} {b : Nat} {decimal : Int} :
    (scale a binary b decimal).1 ≤ (scale a binary b decimal).2 ↔
      (a : ℚ) * 2 ^ binary ≤ b * 10 ^ decimal := by
  rw [← mul_le_mul_iff_left₀ (common_pos binary decimal), ← scale_fst a binary b decimal,
    ← scale_snd a binary b decimal, Nat.cast_le]

theorem scale_ge_iff {a : Nat} {binary : Int} {b : Nat} {decimal : Int} :
    (scale a binary b decimal).2 ≤ (scale a binary b decimal).1 ↔
      (b : ℚ) * 10 ^ decimal ≤ a * 2 ^ binary := by
  rw [← mul_le_mul_iff_left₀ (common_pos binary decimal), ← scale_fst a binary b decimal,
    ← scale_snd a binary b decimal, Nat.cast_le]

theorem scale_snd_eq (a a' : Nat) (binary : Int) (b : Nat) (decimal : Int) :
    (scale a binary b decimal).2 = (scale a' binary b decimal).2 := rfl

theorem Interval.has_iff {i : Interval} {digits : Nat} {exponent : Int} :
    i.has digits exponent = true ↔ i.Holds (digits * 10 ^ exponent) := by
  have low := @scale_le_iff i.low i.exponent digits exponent
  have lowStrict := not_congr (@scale_ge_iff i.low i.exponent digits exponent)
  have high := @scale_ge_iff i.high i.exponent digits exponent
  have highStrict := not_congr (@scale_le_iff i.high i.exponent digits exponent)
  simp only [not_le] at lowStrict highStrict
  rw [scale_snd_eq i.high i.low] at high highStrict
  simp only [Interval.has, Interval.Holds]
  cases closed : i.closed
  · simp [lowStrict, highStrict]
  · simp only [if_true, Bool.and_eq_true, decide_eq_true_eq, true_and, low, high]
    constructor
    · rintro ⟨first, second⟩
      exact ⟨.inr first, .inr second⟩
    · rintro ⟨first, second⟩
      exact ⟨first.elim le_of_lt id, second.elim le_of_lt id⟩

/-! ### The grid -/

theorem onGrid?_has {i : Interval} {exponent : Int} {digits : Nat}
    (found : onGrid? i exponent = some digits) : i.has digits exponent = true := by
  unfold onGrid? at found
  simp only at found
  split at found
  next first second =>
    split at found <;> obtain rfl := Option.some.inj found <;> assumption
  next first second =>
    obtain rfl := Option.some.inj found
    exact first
  next first second =>
    obtain rfl := Option.some.inj found
    exact second
  next => simp at found

theorem onGrid?_isSome {i : Interval} {exponent : Int} {below : Nat}
    (quotient : (scale i.value i.exponent 1 exponent).1 / (scale i.value i.exponent 1 exponent).2 =
      below)
    (either : i.has below exponent = true ∨ i.has (below + 1) exponent = true) :
    (onGrid? i exponent).isSome = true := by
  unfold onGrid?
  simp only [quotient]
  rcases either with has | has
  · rw [has]
    split <;> simp_all
    split <;> rfl
  · rw [has]
    split <;> simp_all
    split <;> rfl

/-- The multiples of `10 ^ exponent` on both sides of the value. -/
theorem grid_bounds (i : Interval) (exponent : Int) :
    ∃ below : Nat, (scale i.value i.exponent 1 exponent).1 /
        (scale i.value i.exponent 1 exponent).2 = below ∧
      (below : ℚ) * 10 ^ exponent ≤ i.value * 2 ^ i.exponent ∧
      (i.value : ℚ) * 2 ^ i.exponent < (below + 1) * 10 ^ exponent := by
  -- Multiplied by a common factor, both numbers are whole, and then it is a division with
  -- remainder.
  have factor := common_pos i.exponent exponent
  have fst := scale_fst i.value i.exponent 1 exponent
  have snd := scale_snd i.value i.exponent 1 exponent
  rcases parts : scale i.value i.exponent 1 exponent with ⟨v, unit⟩
  simp only [parts] at fst snd ⊢
  have positive : 0 < unit := by
    have cast : (0 : ℚ) < unit := by
      rw [snd]
      positivity
    exact_mod_cast cast
  have scaled (k : ℚ) : k * 10 ^ exponent * common i.exponent exponent = k * unit := by
    rw [snd]
    push_cast
    ring
  refine ⟨v / unit, rfl, ?_, ?_⟩
  · rw [← mul_le_mul_iff_left₀ factor, scaled, ← fst]
    exact_mod_cast Nat.div_mul_le_self v unit
  · rw [← mul_lt_mul_iff_left₀ factor, scaled, ← fst]
    have high : v < (v / unit + 1) * unit := Nat.lt_mul_of_div_lt (Nat.lt_succ_self _) positive
    exact_mod_cast high

section

variable {mantissa : Nat} {exponent : Int}

open Binary64

theorem value_interval (mantissa : Nat) (exponent : Int) :
    ((interval mantissa exponent).value : ℚ) * 2 ^ (interval mantissa exponent).exponent =
      mantissa * 2 ^ exponent := by
  simp only [interval]
  rw [zpow_sub_two]
  push_cast
  ring

/-- Whatever differs from a double by less than a part in `2 * 10 ^ 16` is in its interval. -/
theorem holds_of_near (canonical : Canonical mantissa exponent) (mantissaPos : 0 < mantissa) {x : ℚ}
    (near : |x - mantissa * 2 ^ exponent| ≤ mantissa * 2 ^ exponent / (2 * 10 ^ 16)) :
    (interval mantissa exponent).Holds x := by
  have unit : (0 : ℚ) < 2 ^ exponent := by positivity
  have small : (mantissa : ℚ) < 2 ^ 53 := by exact_mod_cast canonical.small
  have distance : |x / 2 ^ exponent - mantissa| ≤ mantissa / (2 * 10 ^ 16) := by
    have same : x / 2 ^ exponent - mantissa = (x - mantissa * 2 ^ exponent) / 2 ^ exponent := by
      field_simp
    rw [same, abs_div, abs_of_pos unit, div_le_iff₀ unit]
    linarith
  obtain ⟨low, high⟩ := abs_le.mp distance
  -- Upwards the interval reaches half a unit, downwards a quarter where it is narrowest.
  have half : (mantissa : ℚ) / (2 * 10 ^ 16) < 1 / 2 := by
    rw [div_lt_iff₀ (by norm_num)]
    norm_num at small ⊢
    linarith
  have quarter : (mantissa : ℚ) / (2 * 10 ^ 16) < margin mantissa exponent / 4 := by
    unfold margin
    split
    next edge =>
      rw [edge.1]
      norm_num
    next =>
      push_cast
      linarith
  rw [interval_holds_iff mantissaPos]
  exact ⟨.inl (by linarith), .inl (by linarith)⟩

/-- On a grid this fine one of the two neighbours of a double is in its interval. -/
theorem onGrid?_of_fine (canonical : Canonical mantissa exponent) (mantissaPos : 0 < mantissa)
    {grid : Int} (fine : (10 : ℚ) ^ grid * 10 ^ 16 ≤ mantissa * 2 ^ exponent) :
    (onGrid? (interval mantissa exponent) grid).isSome = true := by
  obtain ⟨below, quotient, low, high⟩ := grid_bounds (interval mantissa exponent) grid
  rw [value_interval] at low high
  have step : (10 : ℚ) ^ grid / 2 ≤ mantissa * 2 ^ exponent / (2 * 10 ^ 16) := by
    rw [le_div_iff₀ (by norm_num)]
    linarith
  refine onGrid?_isSome quotient ?_
  rw [Interval.has_iff, Interval.has_iff]
  push_cast
  -- The value is in the lower or in the upper half of the step it stands on.
  rcases le_total ((mantissa : ℚ) * 2 ^ exponent) ((below + 1 / 2) * 10 ^ grid) with lower | upper
  · refine .inl (holds_of_near canonical mantissaPos (abs_le.mpr ⟨?_, ?_⟩)) <;> linarith
  · refine .inr (holds_of_near canonical mantissaPos (abs_le.mpr ⟨?_, ?_⟩)) <;> linarith

/-! ### The leading digit -/

/-- Powers of different bases compare as their logarithms do, by one comparison for the ratio. -/
theorem pow_le_pow_of_ratio {a b p q k l : Nat} (nonzero : p ≠ 0) (positive : 0 < b)
    (base : a ^ p ≤ b ^ q) (ratio : q * k ≤ p * l) : a ^ k ≤ b ^ l := by
  refine (Nat.pow_le_pow_iff_left nonzero).mp ?_
  calc (a ^ k) ^ p = (a ^ p) ^ k := by rw [← pow_mul, ← pow_mul, Nat.mul_comm]
    _ ≤ (b ^ q) ^ k := Nat.pow_le_pow_left base k
    _ = b ^ (q * k) := (pow_mul b q k).symm
    _ ≤ b ^ (p * l) := Nat.pow_le_pow_right positive ratio
    _ = (b ^ l) ^ p := by rw [← pow_mul, Nat.mul_comm]

/-- The estimate is not too large. -/
theorem ten_zpow_le_two_zpow {size : Int} (low : -2000 ≤ size) (high : size ≤ 2000) :
    (10 : ℚ) ^ (size * 30103 / 100000 - 1) ≤ 2 ^ size := by
  generalize estimate : size * 30103 / 100000 - 1 = k
  -- One power of ten close to a power of two covers all sizes: `2 ^ 93 ≤ 10 ^ 28` where the powers
  -- are inverted, and `10 ^ 59 ≤ 2 ^ 196` where they are not.
  rcases lt_or_ge size 0 with negative | positive
  · obtain ⟨n, rfl⟩ : ∃ n : Nat, size = -(n : Int) := ⟨(-size).toNat, by omega⟩
    obtain ⟨j, rfl⟩ : ∃ j : Nat, k = -(j : Int) := ⟨(-k).toNat, by omega⟩
    have whole : 2 ^ n ≤ 10 ^ j :=
      pow_le_pow_of_ratio (p := 93) (q := 28) (by decide) (by decide) (by norm_num) (by omega)
    rw [zpow_neg, zpow_neg, zpow_natCast, zpow_natCast]
    refine inv_anti₀ (by positivity) ?_
    exact_mod_cast whole
  · obtain ⟨n, rfl⟩ : ∃ n : Nat, size = n := ⟨size.toNat, by omega⟩
    rcases lt_or_ge k 0 with below | above
    · calc (10 : ℚ) ^ k ≤ 10 ^ (0 : Int) := zpow_le_zpow_right₀ (by norm_num) (by omega)
        _ = 2 ^ (0 : Int) := by norm_num
        _ ≤ 2 ^ (n : Int) := zpow_le_zpow_right₀ (by norm_num) positive
    · obtain ⟨j, rfl⟩ : ∃ j : Nat, k = j := ⟨k.toNat, by omega⟩
      have whole : 10 ^ j ≤ 2 ^ n :=
        pow_le_pow_of_ratio (p := 59) (q := 196) (by decide) (by decide) (by norm_num) (by omega)
      rw [zpow_natCast, zpow_natCast]
      exact_mod_cast whole

theorem leading_spec {value : Nat} {exponent : Int} (valuePos : 0 < value)
    (low : -2000 ≤ (value.log2 : Int) + exponent) (high : (value.log2 : Int) + exponent ≤ 2000) :
    (10 : ℚ) ^ leading value exponent ≤ value * 2 ^ exponent ∧
      ((value.log2 : Int) + exponent) * 30103 / 100000 - 1 ≤ leading value exponent := by
  have reaches (k : Int) : (decide ((scale value exponent 1 k).2 ≤ (scale value exponent 1 k).1)) =
      true ↔ (10 : ℚ) ^ k ≤ value * 2 ^ exponent := by
    rw [decide_eq_true_eq, scale_ge_iff, Nat.cast_one, one_mul]
  simp only [leading]
  split
  next third => exact ⟨(reaches _).mp third, by omega⟩
  split
  next second => exact ⟨(reaches _).mp second, by omega⟩
  split
  next first => exact ⟨(reaches _).mp first, by omega⟩
  next =>
    refine ⟨le_trans (ten_zpow_le_two_zpow low high) ?_, le_refl _⟩
    rw [zpow_add₀ (by norm_num)]
    have first := (log2_bounds valuePos).1
    gcongr

/-! ### The search -/

/-- A search that comes to a fine grid finds digits in the interval before it runs out. -/
theorem search_spec {i : Interval} {finest : Int}
    (found : ∀ grid ≤ finest, (onGrid? i grid).isSome = true) (more : Nat) (grid : Int)
    (reached : grid - more < finest) (morePos : 0 < more) :
    i.Holds (search i more grid).value ∧ grid - more < (search i more grid).exponent := by
  induction more generalizing grid with
  | zero => omega
  | succ more ih =>
    rw [search]
    cases onGrid : onGrid? i grid with
    | some digits => exact ⟨Interval.has_iff.mp (onGrid?_has onGrid), by simp⟩
    | none =>
      have coarse : finest < grid := by
        by_contra fine
        have isSome := found grid (by omega)
        simp [onGrid] at isSome
      obtain ⟨holds, bound⟩ := ih (grid - 1) (by push_cast at reached; omega) (by
        push_cast at reached
        omega)
      exact ⟨holds, by push_cast; omega⟩

theorem trim_spec (more : Nat) (d : Decimal) :
    (trim more d).value = d.value ∧ d.exponent ≤ (trim more d).exponent := by
  induction more generalizing d with
  | zero => exact ⟨rfl, le_refl _⟩
  | succ more ih =>
    rw [trim]
    split
    next zero =>
      obtain ⟨same, bound⟩ := ih ⟨d.significand / 10, d.exponent + 1⟩
      refine ⟨?_, by simp only at bound; omega⟩
      have parts : d.significand = d.significand / 10 * 10 := by omega
      rw [same, Decimal.value, Decimal.value]
      simp only
      rw [zpow_add_one₀ (by norm_num)]
      nth_rewrite 2 [parts]
      push_cast
      ring
    next => exact ⟨rfl, le_refl _⟩

end

end Shortest

open Binary64 Shortest

/-- The digits of a double are in its interval, and they do not reach too far behind the point. -/
theorem Decimal.shortest_spec {mantissa : Nat} {exponent : Int}
    (canonical : Canonical mantissa exponent) (mantissaPos : 0 < mantissa) :
    (interval mantissa exponent).Holds (Decimal.shortest mantissa exponent).value ∧
      -400 ≤ (Decimal.shortest mantissa exponent).exponent := by
  have ⟨small, least, greatest, _⟩ := canonical
  have filled : 0 < (interval mantissa exponent).value := by
    simp only [interval]
    omega
  have logLow : 2 ≤ (interval mantissa exponent).value.log2 := by
    rw [Nat.le_log2 (by omega)]
    simp only [interval]
    omega
  have logHigh : (interval mantissa exponent).value.log2 < 55 := by
    rw [Nat.log2_lt (by omega)]
    simp only [interval]
    omega
  have unit : (interval mantissa exponent).exponent = exponent - 2 := rfl
  obtain ⟨reached, bound⟩ := @leading_spec _ (interval mantissa exponent).exponent filled
    (by omega) (by omega)
  rw [value_interval] at reached
  rw [Decimal.shortest, if_neg (by omega)]
  simp only
  generalize leading (interval mantissa exponent).value (interval mantissa exponent).exponent = lead
    at *
  -- Seventeen digits are enough for any double, so the search finds something in its rounds.
  have fine : ∀ grid ≤ lead - 16, (onGrid? (interval mantissa exponent) grid).isSome = true := by
    intro grid below
    refine onGrid?_of_fine canonical mantissaPos (le_trans ?_ reached)
    calc (10 : ℚ) ^ grid * 10 ^ 16 = 10 ^ (grid + 16) := by
          rw [zpow_add₀ (by norm_num)]
          norm_num
      _ ≤ 10 ^ lead := zpow_le_zpow_right₀ (by norm_num) (by omega)
  obtain ⟨holds, last⟩ := search_spec fine 17 lead (by omega) (by decide)
  obtain ⟨same, trimmed⟩ := trim_spec 17 (search (interval mantissa exponent) 17 lead)
  exact ⟨same ▸ holds, by omega⟩

end Tide
