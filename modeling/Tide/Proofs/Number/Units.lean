import Mathlib
import Tide.Proofs.Number.Text

/-!
# Doubles as multiples of the least one

Every finite double is a multiple of the least one above zero. Counted in that unit doubles are
integers, whose order is the order of the doubles; infinity counts as the first multiple of the
largest unit that is too large for a double, which is also where rounding begins to give infinity.
-/
namespace Tide

open Float.Model Float.Model.UnpackedFloat

namespace Binary64

/-! ### Packing and unpacking -/

def isNegative : UnpackedFloat.Sign → Bool
  | .negative => true
  | .positive => false

/-- What an unpacked double stands for. -/
def ofUnpacked : UnpackedFloat → Binary64
  | .notANumber => .nan
  | .infinity sign => .infinite (isNegative sign)
  | .zero sign => .finite (isNegative sign) 0 (-1074)
  | .finite sign mantissa exponent _ => .finite (isNegative sign) mantissa exponent

theorem isNegative_ofBitVec (b : BitVec 1) :
    isNegative (UnpackedFloat.Sign.ofBitVec b) = decide (b.toNat = 1) := by
  revert b
  decide

theorem ofUnpacked_unpack (b : BitVec Format.binary64.numBits) :
    ofUnpacked (UnpackedFloat.unpack Format.binary64 b) = ofBits b.toNat := by
  have sign : isNegative (UnpackedFloat.Sign.ofBitVec (unpackSign b)) =
      decide (b.toNat / 2 ^ 63 % 2 = 1) := by
    rw [isNegative_ofBitVec, toNat_unpackSign]
  have exponent := toNat_unpackExponent b
  have fraction := toNat_unpackMantissa b
  have full : unpackExponent b = -1#_ ↔ b.toNat / 2 ^ 52 % 2 ^ 11 = 2047 := by
    rw [← BitVec.toNat_inj, exponent]
    exact Iff.rfl
  have least : unpackExponent b = 0#_ ↔ b.toNat / 2 ^ 52 % 2 ^ 11 = 0 := by
    rw [← BitVec.toNat_inj, exponent]
    exact Iff.rfl
  have nothing : unpackMantissa b = 0#_ ↔ b.toNat % 2 ^ 52 = 0 := by
    rw [← BitVec.toNat_inj, fraction]
    exact Iff.rfl
  have hidden : (1#1 ++ unpackMantissa b).toNat = b.toNat % 2 ^ 52 + 2 ^ 52 := by
    rw [toNat_append_eq, fraction, Nat.add_comm]
    rfl
  have bias : ((Format.binary64.exponentBias : Int) + Format.binary64.mantissaBitsWithoutImplicit)
      = 1075 := rfl
  simp only [UnpackedFloat.unpack, ofBits, Nat.pow_eq, full, least, nothing, bias]
  split
  · split <;> simp only [ofUnpacked, sign]
  · split
    next zero =>
      split
      next none => simp only [ofUnpacked, sign, none]
      next more =>
        -- The least exponent counts as the one above it, without a hidden bit.
        simp only [ofUnpacked, sign, fraction]
        congr 1
        rw [exponent, zero]
        rfl
    next normal => simp only [ofUnpacked, sign, hidden, exponent]

theorem ofFloat_eq (x : Float) : ofFloat x = ofUnpacked x.toModel.unpack :=
  (ofUnpacked_unpack _).symm

theorem toNat_packComponents (sign : UnpackedFloat.Sign) (exponent : BitVec 11)
    (mantissa : BitVec 52) :
    (packComponents Format.binary64 sign exponent mantissa).toNat =
      signBit (isNegative sign) + (exponent.toNat * 2 ^ 52 + mantissa.toNat) := by
  have first : signBit (isNegative sign) = sign.toBitVec.toNat * 2 ^ 63 := by
    cases sign <;> rfl
  rw [packComponents, toNat_append_eq, toNat_append_eq, first]
  ring

variable {mantissa mantissa' : Nat} {exponent exponent' : Int}

theorem encode_inj (canonical : Canonical mantissa exponent)
    (canonical' : Canonical mantissa' exponent')
    (same : encode mantissa exponent = encode mantissa' exponent') :
    mantissa = mantissa' ∧ exponent = exponent' := by
  obtain ⟨small, least, -, normal⟩ := canonical
  obtain ⟨small', least', -, normal'⟩ := canonical'
  unfold encode at same
  split at same <;> split at same <;> constructor <;> omega

theorem ofBits_encode (canonical : Canonical mantissa exponent) (negative : Bool) :
    ofBits (signBit negative + encode mantissa exponent) = .finite negative mantissa exponent := by
  obtain ⟨m, e, read, canonical', same⟩ := ofBits_of_lt canonical.encode_lt negative
  obtain ⟨rfl, rfl⟩ := encode_inj canonical' canonical same
  exact read

/-- A mantissa rounded to 53 bits. The exponent may be too large still. -/
structure Aligned (mantissa : Nat) (exponent : Int) : Prop where
  small : mantissa < 2 ^ 53
  least : -1074 ≤ exponent
  normal : 2 ^ 52 ≤ mantissa ∨ exponent = -1074

theorem Canonical.aligned (canonical : Canonical mantissa exponent) : Aligned mantissa exponent :=
  ⟨canonical.small, canonical.least, canonical.normal⟩

theorem Aligned.canonical (aligned : Aligned mantissa exponent) (fits : exponent ≤ 971) :
    Canonical mantissa exponent :=
  ⟨aligned.small, aligned.least, fits, aligned.normal⟩

/-- Packing keeps a rounded number, or makes it infinite. -/
theorem ofBits_pack (aligned : Aligned mantissa exponent) (positive : 0 < mantissa)
    (sign : UnpackedFloat.Sign) :
    ofBits (UnpackedFloat.pack Format.binary64
      (.finite sign mantissa exponent positive)).toNat =
    if exponent ≤ 971 then .finite (isNegative sign) mantissa exponent
    else .infinite (isNegative sign) := by
  have bias : (exponent + Format.binary64.exponentBias +
      Format.binary64.mantissaBitsWithoutImplicit).toNat = (exponent + 1075).toNat := by
    change (exponent + (1023 : Nat) + (52 : Nat)).toNat = _
    omega
  have bits : Format.binary64.mantissaBits = 53 := rfl
  obtain ⟨small, least, normal⟩ := aligned
  simp only [UnpackedFloat.pack, bias, bits]
  by_cases fits : exponent ≤ 971
  · -- The fields are those of the encoding, from which the number can be read again.
    rw [if_neg (by omega), if_pos fits]
    rw [← ofBits_encode ⟨small, least, fits, normal⟩]
    by_cases subnormal : mantissa < 2 ^ 52
    · have log : mantissa.log2 < 52 := (Nat.log2_lt (by omega)).mpr subnormal
      have whole : (BitVec.ofNat 52 mantissa).toNat = mantissa := Nat.mod_eq_of_lt subnormal
      rw [if_neg (by omega), toNat_packComponents, encode, if_pos subnormal, whole]
      congr 2
      exact Nat.zero_add mantissa
    · have log : mantissa.log2 = 52 := (Nat.log2_eq_iff (by omega)).mpr (by omega)
      have whole : (BitVec.ofNat 52 mantissa).toNat = mantissa - 2 ^ 52 := by
        rw [BitVec.toNat_ofNat]
        omega
      have biased : (BitVec.ofNat 11 (exponent + 1075).toNat).toNat = (exponent + 1075).toNat :=
        Nat.mod_eq_of_lt (by omega)
      rw [if_pos (by omega), toNat_packComponents, encode, if_neg subnormal, whole, biased]
  · rw [if_pos (by omega), if_neg fits]
    cases sign <;> rfl

/-! ### Units -/

/-- A finite number without its sign, in units of the least double. It is kept folded, since it may
have two thousand bits. -/
@[irreducible] def magnitude (mantissa : Nat) (exponent : Int) : Nat :=
  mantissa * 2 ^ (exponent + 1074).toNat

/-- The first multiple of the largest unit that is too large for a double. -/
@[irreducible] def top : Nat := magnitude (2 ^ 52) 972

def signed (negative : Bool) (n : Nat) : Int := if negative then -n else n

/-- A number in units of the least double. -/
def units : Binary64 → Int
  | .nan => 0
  | .infinite negative => signed negative top
  | .finite negative mantissa exponent => signed negative (magnitude mantissa exponent)

theorem magnitude_pos (positive : 0 < mantissa) : 0 < magnitude mantissa exponent := by
  rw [magnitude]
  exact Nat.mul_pos positive (Nat.two_pow_pos _)

theorem top_pos : 0 < top := by
  rw [top]
  exact magnitude_pos (by decide)

theorem magnitude_le_magnitude (mantissas : mantissa ≤ mantissa')
    (exponents : exponent ≤ exponent') :
    magnitude mantissa exponent ≤ magnitude mantissa' exponent' := by
  rw [magnitude, magnitude]
  exact Nat.mul_le_mul mantissas (Nat.pow_le_pow_right (by decide) (by omega))

/-- A larger exponent makes a larger number, when the mantissa uses all its bits. -/
theorem magnitude_lt_magnitude (small : mantissa < 2 ^ 53) (least : -1074 ≤ exponent)
    (normal : 2 ^ 52 ≤ mantissa') (less : exponent < exponent') :
    magnitude mantissa exponent < magnitude mantissa' exponent' := by
  have next : (exponent + 1 + 1074).toNat = (exponent + 1074).toNat + 1 := by omega
  calc magnitude mantissa exponent
      < 2 ^ 53 * 2 ^ (exponent + 1074).toNat := by
        rw [magnitude]
        exact Nat.mul_lt_mul_of_pos_right small (Nat.two_pow_pos _)
    _ = magnitude (2 ^ 52) (exponent + 1) := by
        rw [magnitude, next]
        ring
    _ ≤ magnitude mantissa' exponent' := magnitude_le_magnitude normal (by omega)

theorem Canonical.magnitude_lt_top (canonical : Canonical mantissa exponent) :
    magnitude mantissa exponent < top := by
  have greatest := canonical.greatest
  rw [top]
  exact magnitude_lt_magnitude canonical.small canonical.least (le_refl _) (by omega)

theorem Aligned.top_le_magnitude (aligned : Aligned mantissa exponent) (large : 971 < exponent) :
    top ≤ magnitude mantissa exponent := by
  have normal := aligned.normal
  rw [top]
  exact magnitude_le_magnitude (by omega) (by omega)

/-! ### Order -/

/-- The exponents decide, and then the mantissas. -/
theorem compare_magnitude (canonical : Canonical mantissa exponent)
    (canonical' : Canonical mantissa' exponent') :
    (compare exponent exponent').then (compare mantissa mantissa') =
      compare (magnitude mantissa exponent) (magnitude mantissa' exponent') := by
  obtain ⟨small, least, -, normal⟩ := canonical
  obtain ⟨small', least', -, normal'⟩ := canonical'
  rcases lt_trichotomy exponent exponent' with less | rfl | more
  · have value := magnitude_lt_magnitude small least (by omega : 2 ^ 52 ≤ mantissa') less
    rw [compare_lt_iff_lt.mpr less, compare_lt_iff_lt.mpr value]
    rfl
  · -- At one exponent the mantissas decide.
    have scale : StrictMono fun m => magnitude m exponent := by
      intro m m' less
      simp only [magnitude]
      exact Nat.mul_lt_mul_of_pos_right less (Nat.two_pow_pos _)
    rw [compare_eq_iff_eq.mpr rfl, Ordering.then]
    simpa only [cmp_eq_compare] using (scale.cmp_map_eq mantissa mantissa').symm
  · have value := magnitude_lt_magnitude small' least' (by omega : 2 ^ 52 ≤ mantissa) more
    rw [compare_gt_iff_gt.mpr more, compare_gt_iff_gt.mpr value]
    rfl

/-- An unpacked double with a mantissa and an exponent that a double can have. -/
def Unpacked : UnpackedFloat → Prop
  | .finite _ mantissa exponent _ => Canonical mantissa exponent
  | _ => True

@[simp] theorem units_zero (sign : UnpackedFloat.Sign) : (ofUnpacked (.zero sign)).units = 0 := by
  cases sign <;> simp [ofUnpacked, units, signed, magnitude]

@[simp] theorem units_positive (positive : 0 < mantissa) :
    (ofUnpacked (.finite .positive mantissa exponent positive)).units =
      magnitude mantissa exponent := rfl

@[simp] theorem units_negative (positive : 0 < mantissa) :
    (ofUnpacked (.finite .negative mantissa exponent positive)).units =
      -magnitude mantissa exponent := rfl

@[simp] theorem units_infinity : (ofUnpacked (.infinity .positive)).units = top := rfl

@[simp] theorem units_negativeInfinity : (ofUnpacked (.infinity .negative)).units = -top := rfl

theorem units_positive_pos (positive : 0 < mantissa) :
    0 < (ofUnpacked (.finite .positive mantissa exponent positive)).units := by
  have low := @magnitude_pos _ exponent positive
  rw [units_positive]
  omega

theorem units_negative_neg (positive : 0 < mantissa) :
    (ofUnpacked (.finite .negative mantissa exponent positive)).units < 0 := by
  have low := @magnitude_pos _ exponent positive
  rw [units_negative]
  omega

/-- Finite numbers lie between the infinities. -/
theorem units_bounds {a : UnpackedFloat} (fits : Unpacked a)
    (finite : ∀ sign, a = .infinity sign → False) :
    -top < (ofUnpacked a).units ∧ (ofUnpacked a).units < top := by
  have high := top_pos
  rcases a with sign | _ | sign | ⟨_ | _, mantissa, exponent, positive⟩
  · exact (finite sign rfl).elim
  · simp [ofUnpacked, units, high]
  · simp [high]
  all_goals
    have low := @magnitude_pos _ exponent positive
    have below := Canonical.magnitude_lt_top fits
    simp only [units_positive, units_negative]
    omega

theorem some_lt {x y : Int} (less : x < y) : some Ordering.lt = some (compare x y) := by
  rw [compare_lt_iff_lt.mpr less]

theorem some_gt {x y : Int} (more : y < x) : some Ordering.gt = some (compare x y) := by
  rw [compare_gt_iff_gt.mpr more]

theorem some_eq {x y : Int} (same : x = y) : some Ordering.eq = some (compare x y) := by
  rw [compare_eq_iff_eq.mpr same]

/-- Unpacked doubles compare as their units do. -/
theorem compare_units {a b : UnpackedFloat} (fits : Unpacked a) (fits' : Unpacked b)
    (number : a ≠ .notANumber) (number' : b ≠ .notANumber) :
    a.compare b = some (compare (ofUnpacked a).units (ofUnpacked b).units) := by
  have high := top_pos
  have cast : StrictMono (Nat.cast : Nat → Int) := Nat.strictMono_cast
  -- One case for each line of the comparison.
  fun_cases UnpackedFloat.compare a b
  case case1 => exact absurd rfl number
  case case2 => exact absurd rfl number'
  case case3 sign sign' =>
    cases sign <;> cases sign'
    · exact some_eq rfl
    · exact some_lt (by simp only [units_infinity, units_negativeInfinity]; omega)
    · exact some_gt (by simp only [units_infinity, units_negativeInfinity]; omega)
    · exact some_eq rfl
  -- An infinity on one side only.
  case case4 _ finite => exact some_gt (units_bounds fits' finite).2
  case case5 _ finite => exact some_lt (units_bounds fits' finite).1
  case case6 _ finite => exact some_lt (units_bounds fits finite).2
  case case7 _ finite => exact some_gt (units_bounds fits finite).1
  -- Different signs.
  case case8 => exact some_gt ((units_zero _).trans_lt (units_positive_pos _))
  case case9 => exact some_lt ((units_negative_neg _).trans_eq (units_zero _).symm)
  case case10 => exact some_lt ((units_zero _).trans_lt (units_positive_pos _))
  case case11 => exact some_gt ((units_negative_neg _).trans_eq (units_zero _).symm)
  case case12 => exact some_eq ((units_zero _).trans (units_zero _).symm)
  case case14 => exact some_lt ((units_negative_neg _).trans (units_positive_pos _))
  case case15 => exact some_gt ((units_negative_neg _).trans (units_positive_pos _))
  -- The same sign on both sides: a minus turns the order round.
  case case13 =>
    have turned : StrictAnti fun n : Nat => -(n : Int) := cast.neg
    rw [compare_magnitude fits fits', ← cmp_eq_compare, cmp_swap, units_negative, units_negative,
      ← cmp_eq_compare]
    exact congrArg some (turned.cmp_map_eq _ _).symm
  case case16 =>
    rw [compare_magnitude fits fits', units_positive, units_positive, ← cmp_eq_compare,
      ← cmp_eq_compare]
    exact congrArg some (cast.cmp_map_eq _ _).symm

end Binary64

/-! ### Doubles -/

namespace Number

open Binary64

/-- A double in units of the least one. -/
def units (x : Float) : Int := (ofFloat x).units

theorem units_nothing : units 0.0 = 0 := by
  have value : ofFloat 0.0 = .finite false 0 (-1074) := rfl
  rw [units, value]
  exact units_zero .positive

/-- Only such mantissas and exponents are unpacked. -/
theorem unpacked (x : Float) : Unpacked x.toModel.unpack := by
  cases same : x.toModel.unpack with
  | finite sign mantissa exponent positive =>
    have value : ofFloat x = .finite (isNegative sign) mantissa exponent := by
      rw [ofFloat_eq, same]
      rfl
    exact (eq_floatOfBits value).1
  | _ => trivial

theorem compare_eq {x y : Float} (number : ofFloat x ≠ .nan) (number' : ofFloat y ≠ .nan) :
    x.toModel.unpack.compare y.toModel.unpack = some (compare (units x) (units y)) := by
  rw [ofFloat_eq] at number number'
  rw [units, units, ofFloat_eq, ofFloat_eq]
  exact compare_units (unpacked x) (unpacked y) (fun same => number (by rw [same]; rfl))
    (fun same => number' (by rw [same]; rfl))

section

variable {x y : Float} (number : ofFloat x ≠ .nan) (number' : ofFloat y ≠ .nan)

include number number'

theorem lt_iff : x < y ↔ units x < units y := by
  have compared := compare_eq number number'
  change decide (x.toModel < y.toModel) = true ↔ _
  rw [decide_eq_true_iff]
  change (UnpackedFloat.compare _ _ == some .lt) = true ↔ _
  rw [compared, beq_iff_eq, Option.some_inj, compare_lt_iff_lt]

theorem le_iff : x ≤ y ↔ units x ≤ units y := by
  have compared := compare_eq number number'
  change decide (x.toModel ≤ y.toModel) = true ↔ _
  rw [decide_eq_true_iff]
  change (UnpackedFloat.compare _ _).any Ordering.isLE = true ↔ _
  rw [compared, Option.any_some, Std.isLE_compare]

theorem beq_iff : (x == y) = true ↔ units x = units y := by
  have compared := compare_eq number number'
  change (UnpackedFloat.compare _ _ == some .eq) = true ↔ _
  rw [compared, beq_iff_eq, Option.some_inj, compare_eq_iff_eq]

end

theorem Finite.number {x : Float} (finite : Finite x) : ofFloat x ≠ .nan := by
  obtain ⟨negative, mantissa, exponent, value⟩ := finite
  simp [value]

theorem Finite.units_bounds {x : Float} (finite : Finite x) : -top < units x ∧ units x < top := by
  obtain ⟨negative, mantissa, exponent, value⟩ := finite
  have below := (eq_floatOfBits value).1.magnitude_lt_top
  rw [units, value, Binary64.units]
  cases negative <;> simp only [signed, if_true, Bool.false_eq_true, if_false] <;> omega

theorem finite_of_units {x : Float} (number : ofFloat x ≠ .nan) (above : -top < units x)
    (below : units x < top) : Finite x := by
  rw [units] at above below
  cases value : ofFloat x with
  | nan => exact absurd value number
  | infinite negative =>
    rw [value, Binary64.units] at above below
    cases negative <;> simp [signed] at above below
  | finite negative mantissa exponent => exact ⟨negative, mantissa, exponent, value⟩

end Number
end Tide
