import Mathlib
import Tide.Proofs.Number.Units

/-!
# Addition of doubles

The sum of two finite doubles is the double nearest to the exact sum, ties going to the even
mantissa. Counted in units of the least double the exact sum is an integer, and rounding keeps its
53 leading bits: it is rounded to a multiple of the power of two that leaves 53 bits in front.
Rounding respects the order and changes no double, and so does addition of a fixed number.
-/
namespace Tide

open Float.Model Float.Model.UnpackedFloat

namespace Binary64

variable {num num' den mantissa n : Nat} {exponent : Int}

/-! ### Rounding a quotient -/

theorem div_le_roundHalfEven (num den : Nat) : num / den ≤ roundHalfEven num den := by
  unfold roundHalfEven
  simp only
  split <;> omega

theorem roundHalfEven_le_div (num den : Nat) : roundHalfEven num den ≤ num / den + 1 := by
  unfold roundHalfEven
  simp only
  split <;> omega

theorem roundHalfEven_mul (k : Nat) (positive : 0 < den) : roundHalfEven (k * den) den = k := by
  -- The quotient is `k` itself, within half a unit on both sides.
  apply roundHalfEven_eq positive
  · left
    rw [Nat.mul_assoc]
    omega
  · left
    rw [Nat.mul_assoc]
    omega

theorem roundHalfEven_mono (more : num ≤ num') :
    roundHalfEven num den ≤ roundHalfEven num' den := by
  have parts := Nat.div_add_mod num den
  have parts' := Nat.div_add_mod num' den
  rcases (Nat.div_le_div_right (c := den) more).lt_or_eq with less | same
  · calc roundHalfEven num den ≤ num / den + 1 := roundHalfEven_le_div num den
      _ ≤ num' / den := less
      _ ≤ roundHalfEven num' den := div_le_roundHalfEven num' den
  · -- The same quotient, so the rests are in the order of the numbers.
    have rests : num % den ≤ num' % den := by
      rw [same] at parts
      omega
    unfold roundHalfEven
    simp only [same]
    split <;> split <;> omega

/-- A fraction in other terms is rounded to the same. -/
theorem roundHalfEven_scale {c : Nat} (positive : 0 < c) :
    roundHalfEven (num * c) (den * c) = roundHalfEven num den := by
  have more : 2 * (num % den * c) > den * c ↔ 2 * (num % den) > den := by
    rw [← Nat.mul_assoc]
    exact Nat.mul_lt_mul_right positive
  have same : 2 * (num % den * c) = den * c ↔ 2 * (num % den) = den := by
    rw [← Nat.mul_assoc]
    exact Nat.mul_left_inj positive.ne'
  simp only [roundHalfEven, Nat.mul_div_mul_right num den positive, Nat.mul_mod_mul_right, more,
    same]

/-! ### Rounding to 53 bits -/

/-- How many bits are too many. -/
def excess (n : Nat) : Nat := n.log2 - 52

/-- A number without its last bits, rounded. -/
def leading (n : Nat) : Nat := roundHalfEven n (2 ^ excess n)

/-- The nearest number of 53 bits and zeros behind them. -/
def rounded (n : Nat) : Nat := leading n * 2 ^ excess n

theorem lt_of_excess (n : Nat) : n < 2 ^ 53 * 2 ^ excess n := by
  calc n < 2 ^ (n.log2 + 1) := Nat.lt_log2_self
    _ ≤ 2 ^ (53 + excess n) := Nat.pow_le_pow_right (by decide) (by unfold excess; omega)
    _ = 2 ^ 53 * 2 ^ excess n := Nat.pow_add ..

theorem leading_le (n : Nat) : leading n ≤ 2 ^ 53 := by
  calc leading n ≤ roundHalfEven (2 ^ 53 * 2 ^ excess n) (2 ^ excess n) :=
        roundHalfEven_mono (lt_of_excess n).le
    _ = 2 ^ 53 := roundHalfEven_mul _ (Nat.two_pow_pos _)

theorem leading_of_excess (none : excess n = 0) : leading n = n := by
  have whole := @roundHalfEven_mul 1 n (by decide)
  rwa [Nat.mul_one, ← Nat.pow_zero 2, ← none] at whole

theorem le_of_excess (exceeds : 0 < excess n) : 2 ^ 52 * 2 ^ excess n ≤ n := by
  have log : n.log2 = 52 + excess n := by
    unfold excess at exceeds ⊢
    omega
  have filled : n ≠ 0 := by
    rintro rfl
    simp [excess] at exceeds
  calc 2 ^ 52 * 2 ^ excess n = 2 ^ n.log2 := by rw [log, Nat.pow_add]
    _ ≤ n := Nat.log2_self_le filled

theorem le_leading (exceeds : 0 < excess n) : 2 ^ 52 ≤ leading n :=
  calc 2 ^ 52 ≤ n / 2 ^ excess n :=
        (Nat.le_div_iff_mul_le (Nat.two_pow_pos _)).mpr (le_of_excess exceeds)
    _ ≤ leading n := div_le_roundHalfEven ..

theorem rounded_mono {m n : Nat} (more : m ≤ n) : rounded m ≤ rounded n := by
  have logs : excess m ≤ excess n := by
    unfold excess
    have log : m.log2 ≤ n.log2 := by
      rw [Nat.log2_eq_log_two, Nat.log2_eq_log_two]
      exact Nat.log_mono_right more
    omega
  rcases logs.lt_or_eq with less | same
  · -- A power of two lies between the two.
    calc rounded m ≤ 2 ^ 53 * 2 ^ excess m := Nat.mul_le_mul_right _ (leading_le m)
      _ = 2 ^ 52 * 2 ^ (excess m + 1) := by ring
      _ ≤ 2 ^ 52 * 2 ^ excess n :=
          Nat.mul_le_mul_left _ (Nat.pow_le_pow_right (by decide) less)
      _ ≤ rounded n := Nat.mul_le_mul_right _ (le_leading (by omega))
  · unfold rounded leading
    rw [same]
    exact Nat.mul_le_mul_right _ (roundHalfEven_mono more)

theorem log2_mul_two_pow (positive : 0 < mantissa) (k : Nat) :
    (mantissa * 2 ^ k).log2 = mantissa.log2 + k := by
  rw [Nat.log2_eq_iff (Nat.mul_pos positive (Nat.two_pow_pos k)).ne']
  constructor
  · rw [Nat.pow_add]
    exact Nat.mul_le_mul_right _ (Nat.log2_self_le positive.ne')
  · rw [Nat.add_right_comm, Nat.pow_add]
    exact Nat.mul_lt_mul_of_pos_right Nat.lt_log2_self (Nat.two_pow_pos k)

/-- What has 53 bits already stays. -/
theorem rounded_mul_two_pow (small : mantissa < 2 ^ 53) (k : Nat) :
    rounded (mantissa * 2 ^ k) = mantissa * 2 ^ k := by
  rcases Nat.eq_zero_or_pos mantissa with rfl | positive
  · simp [rounded, leading, roundHalfEven]
  · have bits : mantissa.log2 < 53 := (Nat.log2_lt positive.ne').mpr small
    have fits : excess (mantissa * 2 ^ k) ≤ k := by
      rw [excess, log2_mul_two_pow positive]
      omega
    -- Only zeros are dropped, so the number is a multiple of what it is divided by.
    obtain ⟨more, split_⟩ := Nat.exists_eq_add_of_le' fits
    have whole : mantissa * 2 ^ k = mantissa * 2 ^ more * 2 ^ excess (mantissa * 2 ^ k) := by
      rw [Nat.mul_assoc, ← Nat.pow_add, ← split_]
    unfold rounded leading
    conv_lhs =>
      enter [1, 1]
      rw [whole]
    rw [roundHalfEven_mul _ (Nat.two_pow_pos _), ← whole]

/-! ### Shifting bits out -/

/-- What is left of `mantissa` when `k` bits have been shifted out: the last bit that went, and
whether anything was set behind it. -/
structure Shifted (mantissa k : Nat) (em : ExtendedMantissa) : Prop where
  kept : em.mantissa = mantissa / 2 ^ k
  half : em.roundBit = true ↔ 2 ^ k ≤ 2 * (mantissa % 2 ^ k)
  rest : em.stickyBit = true ↔ 2 * (mantissa % 2 ^ k) ≠ 0 ∧ 2 * (mantissa % 2 ^ k) ≠ 2 ^ k

theorem Shifted.next {k : Nat} {em : ExtendedMantissa} (shifted : Shifted mantissa k em) :
    Shifted mantissa (k + 1) em.shiftRightOne := by
  obtain ⟨kept, half, rest⟩ := shifted
  have split_ : mantissa % 2 ^ (k + 1) = mantissa % 2 ^ k + 2 ^ k * (mantissa / 2 ^ k % 2) := by
    rw [Nat.pow_succ, Nat.mod_mul]
  have small : mantissa % 2 ^ k < 2 ^ k := Nat.mod_lt _ (Nat.two_pow_pos k)
  have double : 2 ^ (k + 1) = 2 * 2 ^ k := by ring
  have bit : mantissa / 2 ^ k % 2 = 0 ∨ mantissa / 2 ^ k % 2 = 1 := by omega
  constructor
  · simp only [ExtendedMantissa.shiftRightOne]
    rw [kept, Nat.div_div_eq_div_mul, ← Nat.pow_succ]
  · -- The bit that goes now is the first one behind the point.
    simp only [ExtendedMantissa.shiftRightOne, kept, bne_iff_ne]
    rcases bit with zero | one
    · rw [split_, zero, double]
      omega
    · rw [split_, one, double]
      omega
  · -- What went before lies behind that bit, and counts only as something or nothing.
    simp only [ExtendedMantissa.shiftRightOne, Bool.or_eq_true, half, rest]
    rcases bit with zero | one
    · rw [split_, zero, double]
      omega
    · rw [split_, one, double]
      omega

theorem shifted_of_shift (mantissa k : Nat) :
    Shifted mantissa k (ExtendedMantissa.ofMantissaAndAccuracy mantissa .exact >>> k) := by
  change Shifted mantissa k (Nat.repeat ExtendedMantissa.shiftRightOne k _)
  induction k with
  | zero =>
    constructor <;> simp [Nat.repeat, ExtendedMantissa.ofMantissaAndAccuracy, Nat.mod_one]
  | succ k ih => exact ih.next

/-- The two bits are enough to round. -/
theorem Shifted.rounded {k : Nat} {em : ExtendedMantissa} (shifted : Shifted mantissa k em) :
    em.roundedMantissa = roundHalfEven mantissa (2 ^ k) := by
  obtain ⟨kept, half, rest⟩ := shifted
  obtain ⟨m, roundBit, stickyBit⟩ := em
  have positive : 0 < 2 ^ k := Nat.two_pow_pos k
  simp only at kept half rest
  subst kept
  unfold roundHalfEven
  simp only
  -- Exact, below the half, the half, and above it.
  cases roundBit <;> cases stickyBit <;>
    simp only [ExtendedMantissa.roundedMantissa, ExtendedMantissa.accuracy,
      Accuracy.roundToNearestEven, true_iff, Bool.false_eq_true, false_iff] at half rest ⊢ <;>
    split <;> omega

/-- The exponent that leaves the mantissa 53 bits. -/
def target (mantissa : Nat) (exponent : Int) : Int :=
  Format.binary64.targetExponent (totalExponent mantissa exponent)

theorem target_eq (mantissa : Nat) (exponent : Int) :
    target mantissa exponent = max (mantissa.log2 + 1 + exponent - 53) (-1074) := rfl

theorem excess_magnitude (positive : 0 < mantissa) (least : -1074 ≤ exponent) :
    (excess (magnitude mantissa exponent) : Int) = target mantissa exponent + 1074 := by
  rw [excess, magnitude, log2_mul_two_pow positive, target_eq]
  omega

theorem shiftToTarget_spec (mantissa : Nat) (exponent : Int) :
    ∃ em, shiftToTargetExponent Format.binary64 mantissa exponent .exact =
        (em, exponent + (target mantissa exponent - exponent).toNat) ∧
      Shifted mantissa (target mantissa exponent - exponent).toNat em :=
  ⟨_, rfl, shifted_of_shift ..⟩

/-- A mantissa that was rounded up to `2 ^ 53` is shifted once more. -/
theorem settle (positive : 0 < mantissa) (fits : mantissa ≤ 2 ^ 53) (least : -1074 ≤ exponent)
    (normal : 2 ^ 52 ≤ mantissa ∨ exponent = -1074) :
    ∃ em settled, shiftToTargetExponent Format.binary64 mantissa exponent .exact = (em, settled) ∧
      0 < em.mantissa ∧ Aligned em.mantissa settled ∧
      magnitude em.mantissa settled = magnitude mantissa exponent := by
  obtain ⟨em, shift, shifted⟩ := shiftToTarget_spec mantissa exponent
  refine ⟨em, _, shift, ?_⟩
  rw [shifted.kept]
  -- Below `2 ^ 53` nothing is left to shift; at `2 ^ 53` the bit that goes is zero.
  rcases fits.lt_or_eq with small | rfl
  · have bits : mantissa.log2 < 53 := (Nat.log2_lt positive.ne').mpr small
    have none : (target mantissa exponent - exponent).toNat = 0 := by
      rw [target_eq]
      omega
    rw [none, Nat.pow_zero, Nat.div_one, Nat.cast_zero, add_zero]
    exact ⟨positive, ⟨small, least, normal⟩, rfl⟩
  · have one : (target (2 ^ 53) exponent - exponent).toNat = 1 := by
      rw [target_eq, Nat.log2_two_pow]
      omega
    have half : 2 ^ 53 / 2 ^ 1 = 2 ^ 52 := by decide
    rw [one, half]
    refine ⟨by decide, ⟨by decide, by omega, .inl (le_refl _)⟩, ?_⟩
    have next : (exponent + (1 : Nat) + 1074).toNat = (exponent + 1074).toNat + 1 := by omega
    rw [magnitude, magnitude, next]
    ring

theorem roundWithAccuracy_spec (positive : 0 < mantissa) (least : -1074 ≤ exponent)
    (fine : exponent ≤ target mantissa exponent) (sign : UnpackedFloat.Sign) :
    ∃ m e, ∃ filled : 0 < m, roundWithAccuracy Format.binary64 sign mantissa exponent .exact =
        .finite sign m e filled ∧
      Aligned m e ∧ magnitude m e = rounded (magnitude mantissa exponent) := by
  obtain ⟨em, shift, shifted⟩ := shiftToTarget_spec mantissa exponent
  have exponents : exponent + (target mantissa exponent - exponent).toNat =
      target mantissa exponent := by omega
  have whole := excess_magnitude positive least
  rw [exponents] at shift
  -- The bits that are shifted out are those that are too many.
  have units : excess (magnitude mantissa exponent) =
      (target mantissa exponent - exponent).toNat + (exponent + 1074).toNat := by omega
  have value : em.roundedMantissa = leading (magnitude mantissa exponent) := by
    rw [shifted.rounded, leading, units, Nat.pow_add, magnitude,
      roundHalfEven_scale (Nat.two_pow_pos _)]
  -- Nothing is rounded to zero: the number is a multiple of the least double.
  have filled : 0 < em.roundedMantissa := by
    rw [value]
    by_cases none : excess (magnitude mantissa exponent) = 0
    · rw [leading_of_excess none]
      exact magnitude_pos positive
    · have normal := le_leading (Nat.pos_of_ne_zero none)
      omega
  have normal : 2 ^ 52 ≤ em.roundedMantissa ∨ target mantissa exponent = -1074 := by
    rw [value]
    by_cases none : excess (magnitude mantissa exponent) = 0
    · exact .inr (by omega)
    · exact .inl (le_leading (Nat.pos_of_ne_zero none))
  obtain ⟨em', e, again, filled', aligned, same⟩ := settle filled (value ▸ leading_le _)
    (by rw [target_eq]; omega) normal
  refine ⟨em'.mantissa, e, filled', ?_, aligned, ?_⟩
  · simp only [roundWithAccuracy, shift, again, dif_neg filled'.ne']
  · rw [same, value, magnitude, rounded]
    congr 2
    omega

/-- Rounding a number that is a multiple of the least double. -/
theorem round_spec (positive : 0 < mantissa) (least : -1074 ≤ exponent)
    (sign : UnpackedFloat.Sign) :
    ∃ m e, ∃ filled : 0 < m, UnpackedFloat.round Format.binary64 sign mantissa exponent =
        .finite sign m e filled ∧
      Aligned m e ∧ magnitude m e = rounded (magnitude mantissa exponent) := by
  have shift : mantissa <<< (exponent - target mantissa exponent).toNat =
      mantissa * 2 ^ (exponent - target mantissa exponent).toNat := Nat.shiftLeft_eq ..
  have same : target (mantissa * 2 ^ (exponent - target mantissa exponent).toNat)
      (exponent - (exponent - target mantissa exponent).toNat) = target mantissa exponent := by
    rw [target_eq, target_eq, log2_mul_two_pow positive]
    omega
  have floor : -1074 ≤ target mantissa exponent := by
    rw [target_eq]
    omega
  -- A mantissa of fewer bits is filled up with zeros first, which leaves its value.
  obtain ⟨m, e, filled, result, aligned, value⟩ := @roundWithAccuracy_spec
    (mantissa * 2 ^ (exponent - target mantissa exponent).toNat)
    (exponent - (exponent - target mantissa exponent).toNat)
    (Nat.mul_pos positive (Nat.two_pow_pos _)) (by omega) (by omega) sign
  refine ⟨m, e, filled, ?_, aligned, ?_⟩
  · rw [← result, ← shift]
    rfl
  · rw [value, magnitude, magnitude, Nat.mul_assoc, ← Nat.pow_add]
    congr 3
    omega

/-! ### The sum -/

/-- The double nearest to a number of units, in units. -/
def nearest (n : Int) : Int := signed (decide (n < 0)) (min (rounded n.natAbs) top)

theorem nearest_mono {m n : Int} (more : m ≤ n) : nearest m ≤ nearest n := by
  have order {i j : Nat} (less : i ≤ j) : min (rounded i) top ≤ min (rounded j) top :=
    min_le_min_right top (rounded_mono less)
  unfold nearest signed
  by_cases left : m < 0 <;> by_cases right : n < 0 <;>
    simp only [left, right, decide_true, decide_false, if_true, Bool.false_eq_true, if_false]
  · -- Of two negative numbers the smaller one has the larger magnitude.
    have turned := @order n.natAbs m.natAbs (by omega)
    omega
  · omega
  · omega
  · have kept := @order m.natAbs n.natAbs (by omega)
    omega

/-- A double is the nearest one to itself. -/
theorem Canonical.nearest_eq (canonical : Canonical mantissa exponent) (negative : Bool) :
    nearest (signed negative (magnitude mantissa exponent)) =
      signed negative (magnitude mantissa exponent) := by
  have below := canonical.magnitude_lt_top
  have same : rounded (magnitude mantissa exponent) = magnitude mantissa exponent := by
    rw [magnitude]
    exact rounded_mul_two_pow canonical.small _
  generalize magnitude mantissa exponent = n at *
  have kept : min (rounded n) top = n := by
    rw [same]
    exact min_eq_left below.le
  have zero : n = 0 ∨ 0 < n := Nat.eq_zero_or_pos n
  have whole : (signed negative n).natAbs = n := by
    cases negative <;> simp [signed]
  rw [nearest, whole, kept]
  cases negative <;> rcases zero with rfl | positive <;> simp [signed]

/-- Packing gives a number with so many units. -/
structure Packs (u : UnpackedFloat) (n : Int) : Prop where
  number : ofBits (UnpackedFloat.pack Format.binary64 u).toNat ≠ .nan
  value : (ofBits (UnpackedFloat.pack Format.binary64 u).toNat).units = n

theorem Packs.zero (sign : UnpackedFloat.Sign) : Packs (.zero sign) 0 := by
  have packed : ofBits (UnpackedFloat.pack Format.binary64 (.zero sign)).toNat =
      ofUnpacked (.zero sign) := by
    cases sign <;> rfl
  constructor
  · rw [packed]
    exact Binary64.noConfusion
  · rw [packed, units_zero]

theorem Packs.finite (aligned : Aligned mantissa exponent) (positive : 0 < mantissa)
    (sign : UnpackedFloat.Sign) :
    Packs (.finite sign mantissa exponent positive)
      (signed (isNegative sign) (min (magnitude mantissa exponent) top)) := by
  have packed := ofBits_pack aligned positive sign
  by_cases fits : exponent ≤ 971
  · have below := (aligned.canonical fits).magnitude_lt_top
    rw [if_pos fits] at packed
    constructor
    · rw [packed]
      exact Binary64.noConfusion
    · rw [packed, min_eq_left below.le, units]
  · rw [if_neg fits] at packed
    constructor
    · rw [packed]
      exact Binary64.noConfusion
    · rw [packed, min_eq_right (aligned.top_le_magnitude (by omega)), units]

theorem packs_round (positive : 0 < mantissa) (least : -1074 ≤ exponent)
    (sign : UnpackedFloat.Sign) :
    Packs (UnpackedFloat.round Format.binary64 sign mantissa exponent)
      (nearest (signed (isNegative sign) (magnitude mantissa exponent))) := by
  obtain ⟨m, e, filled, result, aligned, value⟩ := round_spec positive least sign
  have sizePos := @magnitude_pos _ exponent positive
  rw [result]
  convert Packs.finite aligned filled sign using 1
  rw [nearest, value]
  cases sign <;> simp [isNegative, signed, sizePos]

/-- A sum of mantissas at one exponent is rounded once. -/
theorem packs_normalize (sum : Int) (least : -1074 ≤ exponent) :
    Packs (UnpackedFloat.normalize Format.binary64 sum exponent .positive)
      (nearest (sum * 2 ^ (exponent + 1074).toNat)) := by
  -- The sign is set aside, and the magnitude is rounded.
  rcases lt_trichotomy sum 0 with less | rfl | more
  · have size : sum * 2 ^ (exponent + 1074).toNat =
        signed (isNegative .negative) (magnitude (-sum).toNat exponent) := by
      rw [magnitude]
      simp only [isNegative, signed, if_true]
      push_cast
      rw [Int.toNat_of_nonneg (by omega)]
      ring
    rw [UnpackedFloat.normalize, compare_lt_iff_lt.mpr less, size]
    exact packs_round (by omega) least .negative
  · rw [UnpackedFloat.normalize, compare_eq_iff_eq.mpr rfl, zero_mul]
    exact Packs.zero .positive
  · have size : sum * 2 ^ (exponent + 1074).toNat =
        signed (isNegative .positive) (magnitude sum.toNat exponent) := by
      rw [magnitude]
      simp only [isNegative, signed, Bool.false_eq_true, if_false]
      push_cast
      rw [Int.toNat_of_nonneg (by omega)]
    rw [UnpackedFloat.normalize, compare_gt_iff_gt.mpr more, size]
    exact packs_round (by omega) least .positive

/-- Numbers are put on the smaller of the two exponents, where they are added exactly. -/
theorem apply_decreased (sign : UnpackedFloat.Sign) (mantissa : Nat) {exponent least : Int}
    (below : least ≤ exponent) (bottom : -1074 ≤ least) :
    sign.apply (mantissa <<< (exponent - least).toNat : Nat) * 2 ^ (least + 1074).toNat =
      signed (isNegative sign) (magnitude mantissa exponent) := by
  have whole : mantissa <<< (exponent - least).toNat * 2 ^ (least + 1074).toNat =
      magnitude mantissa exponent := by
    rw [Nat.shiftLeft_eq, Nat.mul_assoc, ← Nat.pow_add, magnitude]
    congr 2
    omega
  rw [← whole]
  cases sign <;> simp [UnpackedFloat.Sign.apply, isNegative, signed]

theorem units_finite (sign : UnpackedFloat.Sign) (positive : 0 < mantissa) :
    (ofUnpacked (.finite sign mantissa exponent positive)).units =
      signed (isNegative sign) (magnitude mantissa exponent) := by
  cases sign <;> rfl

theorem zero_or_finite {a : UnpackedFloat}
    (finite : ∃ negative m e, ofUnpacked a = .finite negative m e) :
    (∃ sign, a = .zero sign) ∨
      ∃ sign mantissa exponent positive, a = .finite sign mantissa exponent positive := by
  obtain ⟨negative, m, e, value⟩ := finite
  cases a with
  | infinity sign => simp [ofUnpacked] at value
  | notANumber => simp [ofUnpacked] at value
  | zero sign => exact .inl ⟨sign, rfl⟩
  | finite sign mantissa exponent positive => exact .inr ⟨sign, mantissa, exponent, positive, rfl⟩

/-- Zero added to a number leaves it. -/
theorem packs_self {a : UnpackedFloat} (fits : Unpacked a)
    (finite : ∃ negative m e, ofUnpacked a = .finite negative m e) :
    Packs a (nearest (ofUnpacked a).units) := by
  rcases zero_or_finite finite with ⟨sign, rfl⟩ | ⟨sign, mantissa, exponent, positive, rfl⟩
  · rw [units_zero]
    exact Packs.zero sign
  · have canonical : Canonical mantissa exponent := fits
    have packed := Packs.finite canonical.aligned positive sign
    rw [min_eq_left canonical.magnitude_lt_top.le] at packed
    rwa [units_finite, canonical.nearest_eq]

/-- What packing a sum gives is the double nearest to it. -/
theorem packs_add {a b : UnpackedFloat} (fits : Unpacked a) (fits' : Unpacked b)
    (finite : ∃ negative m e, ofUnpacked a = .finite negative m e)
    (finite' : ∃ negative m e, ofUnpacked b = .finite negative m e) :
    Packs (UnpackedFloat.add Format.binary64 a b)
      (nearest ((ofUnpacked a).units + (ofUnpacked b).units)) := by
  have self := packs_self fits finite
  have self' := packs_self fits' finite'
  rcases zero_or_finite finite with ⟨sign, rfl⟩ | ⟨sign, mantissa, exponent, positive, rfl⟩ <;>
    rcases zero_or_finite finite' with ⟨sign', rfl⟩ | ⟨sign', mantissa', exponent', positive', rfl⟩
  · -- The sum of two zeros has some sign, which does not count.
    have both : ∃ s, UnpackedFloat.add Format.binary64 (.zero sign) (.zero sign') = .zero s := by
      simp only [UnpackedFloat.add]
      split
      · exact ⟨_, rfl⟩
      · exact ⟨_, rfl⟩
    obtain ⟨s, both⟩ := both
    rw [both, units_zero, units_zero]
    exact Packs.zero s
  · rw [units_zero, zero_add]
    exact self'
  · rw [units_zero, add_zero]
    exact self
  · have least : -1074 ≤ min exponent exponent' := by
      have floor : Canonical mantissa exponent := fits
      have floor' : Canonical mantissa' exponent' := fits'
      exact le_min floor.least floor'.least
    have sum := packs_normalize
      (sign.apply (mantissa <<< (exponent - min exponent exponent').toNat : Nat) +
        sign'.apply (mantissa' <<< (exponent' - min exponent exponent').toNat : Nat)) least
    rw [add_mul, apply_decreased sign mantissa (min_le_left ..) least,
      apply_decreased sign' mantissa' (min_le_right ..) least] at sum
    rw [units_finite, units_finite]
    exact sum

end Binary64

/-! ### Sums of doubles -/

namespace Number

open Binary64

variable {x y step : Float}

/-- The sum of two finite doubles is the double nearest to the exact sum; it may be infinite, but
it is a number. -/
theorem add_spec (finite : Finite x) (finite' : Finite y) :
    ofFloat (x + y) ≠ .nan ∧ units (x + y) = nearest (units x + units y) := by
  have packed : Packs (UnpackedFloat.add Format.binary64 x.toModel.unpack y.toModel.unpack)
      (nearest (units x + units y)) := by
    unfold Finite at finite finite'
    rw [ofFloat_eq] at finite finite'
    rw [units, units, ofFloat_eq, ofFloat_eq]
    exact packs_add (unpacked x) (unpacked y) finite finite'
  exact ⟨packed.number, packed.value⟩

theorem nearest_units (finite : Finite x) : nearest (units x) = units x := by
  obtain ⟨negative, mantissa, exponent, value⟩ := finite
  rw [units, value, Binary64.units]
  exact (eq_floatOfBits value).1.nearest_eq negative

end Number
end Tide
