import Mathlib
import Tide.Proofs.Number.Addition

/-!
# Whole numbers among the doubles

Every whole number up to `2 ^ 53` in size is a double. Sums of such doubles are exact as long as
they stay in that range, and they are the doubles of the sums down to the last bit: the sum of two
numbers that cancel is the positive zero.
-/
namespace Tide

namespace Binary64

variable {mantissa mantissa' n : Nat} {exponent exponent' : Int}

/-- How many units make a one. It is kept folded, like the magnitudes. -/
@[irreducible] def unity : Nat := magnitude 1 0

theorem unity_pos : 0 < unity := by
  rw [unity]
  exact magnitude_pos Nat.one_pos

/-! ### The doubles of whole numbers -/

/-- A whole number is moved up until its mantissa uses all its bits. -/
theorem exists_canonical_of_lt (positive : 0 < n) (fits : n < 2 ^ 53) :
    ∃ mantissa exponent, Canonical mantissa exponent ∧ 0 < mantissa ∧
      (mantissa : ℚ) * 2 ^ exponent = n ∧ magnitude mantissa exponent = n * unity := by
  have log : n.log2 < 53 := (Nat.log2_lt positive.ne').mpr fits
  obtain ⟨shift, whole⟩ : ∃ shift, n.log2 + shift = 52 := ⟨52 - n.log2, by omega⟩
  have low : 2 ^ 52 ≤ n * 2 ^ shift := by
    rw [← whole, Nat.pow_add]
    exact Nat.mul_le_mul_right _ (Nat.log2_self_le positive.ne')
  have high : n * 2 ^ shift < 2 ^ 53 := by
    have next : 53 = n.log2 + 1 + shift := by omega
    rw [next, Nat.pow_add]
    exact Nat.mul_lt_mul_of_pos_right Nat.lt_log2_self (Nat.two_pow_pos _)
  refine ⟨n * 2 ^ shift, -(shift : Int), ⟨high, by omega, by omega, .inl low⟩, by omega, ?_, ?_⟩
  · rw [zpow_neg, zpow_natCast]
    push_cast
    field_simp
  · have parts : shift + (-(shift : Int) + 1074).toNat = (0 + 1074 : Int).toNat := by omega
    rw [unity, magnitude, magnitude, Nat.mul_assoc, ← Nat.pow_add, parts, Nat.one_mul]

theorem exists_canonical (positive : 0 < n) (fits : n ≤ 2 ^ 53) :
    ∃ mantissa exponent, Canonical mantissa exponent ∧ 0 < mantissa ∧
      (mantissa : ℚ) * 2 ^ exponent = n ∧ magnitude mantissa exponent = n * unity := by
  rcases fits.lt_or_eq with less | rfl
  · exact exists_canonical_of_lt positive less
  · -- The last one needs a bit more than a mantissa has, but that bit is zero.
    refine ⟨2 ^ 52, 1, ⟨by decide, by decide, by decide, .inl (le_refl _)⟩, by decide, ?_, ?_⟩
    · norm_num
    · have next : (1 + 1074 : Int).toNat = 1 + (0 + 1074 : Int).toNat := by omega
      rw [unity, magnitude, magnitude, next, Nat.pow_add, ← Nat.mul_assoc, ← Nat.pow_add,
        Nat.one_mul]

/-- A whole number is rounded to the double that it is. -/
theorem toFloat_whole (canonical : Canonical mantissa exponent) (mantissaPos : 0 < mantissa)
    (positive : 0 < n) (value : (mantissa : ℚ) * 2 ^ exponent = n) (negative : Bool) :
    toFloat negative n 0 = floatOfBits negative (encode mantissa exponent) := by
  have near : |((n : ℚ) / (1 : Nat)) - mantissa * 2 ^ exponent| ≤
      mantissa * 2 ^ exponent / (2 * 10 ^ 16) := by
    rw [value, Nat.cast_one, div_one, sub_self, abs_zero]
    positivity
  have bits := nearestBits_of_holds canonical mantissaPos positive Nat.one_pos
    (Shortest.holds_of_near canonical mantissaPos near)
  have below := canonical.encode_lt
  simp only [toFloat, nearest?, Int.lt_irrefl, gt_iff_lt, false_and, or_false, if_false]
  rw [if_neg (by omega), Int.toNat_zero, Nat.pow_eq, Nat.pow_zero, Nat.mul_one, bits,
    if_pos below, Option.getD_some]

/-- Only one mantissa and one exponent make a number. -/
theorem Canonical.magnitude_inj (canonical : Canonical mantissa exponent)
    (canonical' : Canonical mantissa' exponent')
    (same : magnitude mantissa exponent = magnitude mantissa' exponent') :
    mantissa = mantissa' ∧ exponent = exponent' := by
  have ordered := compare_magnitude canonical canonical'
  rw [compare_eq_iff_eq.mpr same, Ordering.then_eq_eq, compare_eq_iff_eq, compare_eq_iff_eq]
    at ordered
  exact ordered.symm

end Binary64

namespace Number

open Binary64 Float.Model

variable {x y : Float} {m n : Int}

/-- The double nearest to a whole number. -/
def ofInt (n : Int) : Float := Binary64.toFloat (decide (n < 0)) n.natAbs 0

theorem ofInt_spec (fits : n.natAbs ≤ 2 ^ 53) :
    Finite (ofInt n) ∧ units (ofInt n) = n * unity := by
  by_cases zero : n = 0
  · subst zero
    refine ⟨⟨false, 0, -1074, rfl⟩, ?_⟩
    rw [zero_mul]
    exact units_nothing
  · have positive : 0 < n.natAbs := by omega
    obtain ⟨mantissa, exponent, canonical, mantissaPos, value, size⟩ :=
      exists_canonical positive fits
    have read : ofFloat (ofInt n) = .finite (decide (n < 0)) mantissa exponent := by
      rw [ofInt, toFloat_whole canonical mantissaPos positive value,
        ofFloat_floatOfBits canonical.encode_lt, ofBits_encode canonical]
    refine ⟨⟨_, _, _, read⟩, ?_⟩
    rw [units, read, Binary64.units, size]
    -- The mantissa is that of the absolute value; the sign comes back at the end.
    by_cases negative : n < 0
    · have turned : ((n.natAbs * unity : Nat) : Int) = -n * unity := by
        rw [Nat.cast_mul, Int.ofNat_natAbs_of_nonpos (by omega)]
      simp only [signed, negative, decide_true, if_true, turned]
      ring
    · have kept : ((n.natAbs * unity : Nat) : Int) = n * unity := by
        rw [Nat.cast_mul, Int.natAbs_of_nonneg (by omega)]
      simp only [signed, negative, decide_false, Bool.false_eq_true, if_false, kept]

/-! ### Doubles that equal a whole number -/

/-- What equals anything is a number. -/
theorem number_of_beq (same : (x == y) = true) : ofFloat x ≠ .nan := by
  intro undefined
  change (x.toModel.unpack.compare y.toModel.unpack == some Ordering.eq) = true at same
  rw [ofFloat_eq] at undefined
  cases unpacked : x.toModel.unpack with
  | notANumber => simp [unpacked, UnpackedFloat.compare] at same
  | infinity sign => simp [unpacked, ofUnpacked] at undefined
  | zero sign => simp [unpacked, ofUnpacked] at undefined
  | finite sign mantissa exponent positive => simp [unpacked, ofUnpacked] at undefined

/-- A double that stands for a whole number, which may be a zero of either sign. -/
structure Whole (x : Float) (n : Int) : Prop where
  fits : n.natAbs ≤ 2 ^ 53
  finite : Finite x
  value : units x = n * unity

theorem whole_ofInt (fits : n.natAbs ≤ 2 ^ 53) : Whole (ofInt n) n :=
  ⟨fits, (ofInt_spec fits).1, (ofInt_spec fits).2⟩

theorem whole_of_beq (fits : n.natAbs ≤ 2 ^ 53) (same : (x == ofInt n) = true) : Whole x n := by
  obtain ⟨finite, value⟩ := ofInt_spec fits
  have number := number_of_beq same
  have equal : units x = units (ofInt n) := (beq_iff number finite.number).mp same
  have bounds := finite.units_bounds
  rw [← equal] at bounds value
  exact ⟨fits, finite_of_units number bounds.1 bounds.2, value⟩

theorem Whole.units_lt_iff (whole : Whole x m) (whole' : Whole y n) :
    units x < units y ↔ m < n := by
  rw [whole.value, whole'.value]
  exact mul_lt_mul_iff_of_pos_right (by exact_mod_cast unity_pos)

/-! ### Sums -/

/-- Two doubles with the same value are the same, unless they are zeros. -/
theorem eq_of_units (finite : Finite x) (finite' : Finite y) (same : units x = units y)
    (nonzero : units x ≠ 0) : x = y := by
  obtain ⟨negative, mantissa, exponent, value⟩ := finite
  obtain ⟨negative', mantissa', exponent', value'⟩ := finite'
  obtain ⟨canonical, bits⟩ := eq_floatOfBits value
  obtain ⟨canonical', bits'⟩ := eq_floatOfBits value'
  rw [units, value, Binary64.units] at same nonzero
  rw [units, value', Binary64.units] at same
  -- The sign of a number that is not zero is that of its value, so the magnitudes agree too.
  have signs : negative = negative' := by
    cases negative <;> cases negative' <;>
      simp only [signed, if_true, Bool.false_eq_true, if_false] at same nonzero ⊢ <;> omega
  subst signs
  have sizes : magnitude mantissa exponent = magnitude mantissa' exponent' := by
    cases negative <;>
      simp only [signed, if_true, Bool.false_eq_true, if_false] at same <;> omega
  obtain ⟨rfl, rfl⟩ := canonical.magnitude_inj canonical' sizes
  rw [bits, bits']

theorem Whole.eq_ofInt (whole : Whole x n) (nonzero : n ≠ 0) : x = ofInt n := by
  obtain ⟨finite, value⟩ := ofInt_spec whole.fits
  apply eq_of_units whole.finite finite (whole.value.trans value.symm)
  rw [whole.value]
  exact mul_ne_zero nonzero (by exact_mod_cast unity_pos.ne')

theorem exists_unpacked (finite : Finite x) (nonzero : units x ≠ 0) :
    ∃ sign mantissa exponent positive,
      x.toModel.unpack = .finite sign mantissa exponent positive := by
  unfold Finite at finite
  rw [ofFloat_eq] at finite
  rcases zero_or_finite finite with ⟨sign, zero⟩ | unpacks
  · rw [units, ofFloat_eq, zero, units_zero] at nonzero
    exact absurd rfl nonzero
  · exact unpacks

/-- Numbers that cancel have the positive zero for their sum. -/
theorem add_eq_zero (finite : Finite x) (finite' : Finite y) (nonzero : units y ≠ 0)
    (cancel : units x + units y = 0) : x + y = ofInt 0 := by
  obtain ⟨sign, mantissa, exponent, positive, value⟩ := exists_unpacked finite (by omega)
  obtain ⟨sign', mantissa', exponent', positive', value'⟩ := exists_unpacked finite' nonzero
  have canonical : Canonical mantissa exponent := by
    have fits := unpacked x
    rwa [value] at fits
  have canonical' : Canonical mantissa' exponent' := by
    have fits := unpacked y
    rwa [value'] at fits
  have least : -1074 ≤ min exponent exponent' := le_min canonical.least canonical'.least
  -- On the smaller of the two exponents the mantissas cancel too.
  have sum := congrArg₂ (· + ·)
    (apply_decreased sign mantissa (min_le_left exponent exponent') least)
    (apply_decreased sign' mantissa' (min_le_right exponent exponent') least)
  rw [units, units, ofFloat_eq, ofFloat_eq, value, value', units_finite, units_finite] at cancel
  simp only [cancel, ← add_mul, mul_eq_zero] at sum
  have nothing := sum.resolve_right (by positivity)
  have added : UnpackedFloat.add Format.binary64 x.toModel.unpack y.toModel.unpack =
      .zero .positive := by
    rw [value, value']
    simp only [UnpackedFloat.add, UnpackedFloat.decreaseExponent]
    rw [nothing, UnpackedFloat.normalize, compare_eq_iff_eq.mpr rfl]
  change Float.ofModel (Float.Model.pack
    (UnpackedFloat.add Format.binary64 x.toModel.unpack y.toModel.unpack)) = _
  rw [added]
  rfl

/-- Sums of whole numbers are exact while they stay in the range. -/
theorem Whole.add (whole : Whole x m) (whole' : Whole y n) (nonzero : n ≠ 0)
    (fits : (m + n).natAbs ≤ 2 ^ 53) : x + y = ofInt (m + n) := by
  obtain ⟨target, size⟩ := ofInt_spec fits
  have total : units x + units y = units (ofInt (m + n)) := by
    rw [whole.value, whole'.value, size, add_mul]
  by_cases zero : m + n = 0
  · rw [zero]
    apply add_eq_zero whole.finite whole'.finite
    · rw [whole'.value]
      exact mul_ne_zero nonzero (by exact_mod_cast unity_pos.ne')
    · rw [total, size, zero, zero_mul]
  · obtain ⟨number, value⟩ := add_spec whole.finite whole'.finite
    rw [total, nearest_units target] at value
    have bounds := target.units_bounds
    rw [← value] at bounds
    have sum : Whole (x + y) (m + n) :=
      ⟨fits, finite_of_units number bounds.1 bounds.2, value.trans size⟩
    exact sum.eq_ofInt zero

end Number
end Tide
