import Mathlib
import Tide.Number.Binary64

/-!
# Doubles and their bits

A finite double is its bits, and the bits are a sign, an exponent and a fraction. `encode` puts
together what `ofBits` takes apart, so that a finite double can be recovered from the exact number
it stands for.
-/
namespace Tide

namespace Binary64

open Float.Model Float.Model.UnpackedFloat

/-! ### The fields of a bit pattern -/

theorem toNat_unpackMantissa (b : BitVec Format.binary64.numBits) :
    (unpackMantissa b).toNat = b.toNat % 2 ^ 52 := by
  simp [unpackMantissa, BitVec.extractLsb, BitVec.extractLsb']

theorem toNat_unpackExponent (b : BitVec Format.binary64.numBits) :
    (unpackExponent b).toNat = b.toNat / 2 ^ 52 % 2 ^ 11 := by
  simp [unpackExponent, BitVec.extractLsb, BitVec.extractLsb', Nat.shiftRight_eq_div_pow]

theorem toNat_unpackSign (b : BitVec Format.binary64.numBits) :
    (unpackSign b).toNat = b.toNat / 2 ^ 63 % 2 := by
  simp [unpackSign, BitVec.extractLsb, BitVec.extractLsb', Nat.shiftRight_eq_div_pow]

theorem toNat_append_eq {m n : Nat} (x : BitVec m) (y : BitVec n) :
    (x ++ y).toNat = x.toNat * 2 ^ n + y.toNat := by
  rw [BitVec.toNat_append, ← Nat.shiftLeft_add_eq_or_of_lt y.isLt, Nat.shiftLeft_eq]

theorem packComponents_unpack (b : BitVec Format.binary64.numBits) :
    packComponents Format.binary64 (Sign.ofBitVec (unpackSign b)) (unpackExponent b)
      (unpackMantissa b) = b := by
  have sign : (Sign.ofBitVec (unpackSign b)).toBitVec = unpackSign b := by
    generalize unpackSign b = v
    revert v; decide
  have size := b.isLt
  apply BitVec.eq_of_toNat_eq
  rw [packComponents, sign, toNat_append_eq, toNat_append_eq, toNat_unpackMantissa,
    toNat_unpackExponent, toNat_unpackSign]
  simp only [Format.numBits] at size ⊢
  omega

/-- Packing undoes unpacking for every bit pattern of a finite number. -/
theorem pack_unpack {b : BitVec Format.binary64.numBits} (finite : unpackExponent b ≠ -1#_) :
    UnpackedFloat.pack Format.binary64 (UnpackedFloat.unpack Format.binary64 b) = b := by
  have whole := packComponents_unpack b
  have small : (unpackMantissa b).toNat < 2 ^ 52 := (unpackMantissa b).isLt
  have high : (unpackExponent b).toNat < 2 ^ 11 := (unpackExponent b).isLt
  have below : (unpackExponent b).toNat ≠ 2047 := fun full =>
    finite (BitVec.eq_of_toNat_eq (full.trans (by decide)))
  simp only [UnpackedFloat.unpack, finite, if_false]
  split
  next zero =>
    rw [zero] at whole
    split
    next nothing =>
      rw [nothing] at whole
      exact whole
    -- Subnormal: the mantissa has no leading one, so it is stored as it is.
    next something =>
      have filled : (unpackMantissa b).toNat ≠ 0 := fun none =>
        something (BitVec.eq_of_toNat_eq none)
      have bits : (unpackMantissa b).toNat.log2 < 52 := (Nat.log2_lt filled).mpr small
      have exponent : ((unpackExponent b).toNat : Int) = 0 := by
        rw [zero]; rfl
      simp only [UnpackedFloat.pack, Format.exponentBias, Format.mantissaBits, exponent]
      rw [if_neg (by decide), if_neg (by omega), BitVec.ofNat_toNat, BitVec.setWidth_eq]
      exact whole
  -- Normal: the leading one was put in front by unpacking and is dropped again.
  next normal =>
    have value : (1#1 ++ unpackMantissa b).toNat = 2 ^ 52 + (unpackMantissa b).toNat := by
      rw [toNat_append_eq]
      rfl
    have bits : (2 ^ 52 + (unpackMantissa b).toNat).log2 = 52 := by
      rw [Nat.log2_eq_iff (by omega)]
      constructor <;> omega
    have same : BitVec.ofNat 52 (2 ^ 52 + (unpackMantissa b).toNat) = unpackMantissa b := by
      apply BitVec.eq_of_toNat_eq
      rw [BitVec.toNat_ofNat]
      omega
    have biased : (((unpackExponent b).toNat : Int) - (((2 ^ 10 - 1 : Nat) : Int) + (52 : Nat))
        + ((2 ^ 10 - 1 : Nat) : Int) + (52 : Nat)).toNat = (unpackExponent b).toNat := by
      omega
    simp only [UnpackedFloat.pack, Format.exponentBias, Format.mantissaBits, value, bits, same,
      biased, BitVec.ofNat_toNat, BitVec.setWidth_eq]
    rw [if_neg (by omega), if_pos trivial]
    exact whole

/-- Whether a bit pattern stands for a finite number. -/
def isFinite (bits : Nat) : Prop := bits / 2 ^ 52 % 2 ^ 11 ≠ 2047

theorem unpackExponent_ne {b : UInt64} (finite : isFinite b.toNat) :
    @unpackExponent Format.binary64 b.toBitVec ≠ -1#_ := by
  intro full
  have number := congrArg BitVec.toNat full
  rw [toNat_unpackExponent] at number
  exact finite number

theorem toBits_ofBits {b : UInt64} (finite : isFinite b.toNat) : (Float.ofBits b).toBits = b := by
  change UInt64.ofBitVec (UnpackedFloat.pack Format.binary64 _) = b
  rw [pack_unpack (unpackExponent_ne finite)]

theorem ofBits_toBits {x : Float} (finite : isFinite x.toBits.toNat) : Float.ofBits x.toBits = x := by
  obtain ⟨⟨bits, valid⟩⟩ := x
  have same := toBits_ofBits finite
  cases again : Float.ofBits (Float.ofModel ⟨bits, valid⟩).toBits with
  | ofModel model =>
    obtain ⟨bits', valid'⟩ := model
    rw [again] at same
    obtain rfl : bits' = bits := same
    rfl

/-! ### Exact numbers -/

/-- The mantissa and exponent of a finite double: the mantissa has 53 bits, unless the exponent is
the least one. -/
structure Canonical (mantissa : Nat) (exponent : Int) : Prop where
  small : mantissa < 2 ^ 53
  least : -1074 ≤ exponent
  greatest : exponent ≤ 971
  normal : 2 ^ 52 ≤ mantissa ∨ exponent = -1074

/-- The bits of `mantissa * 2 ^ exponent`. -/
def encode (mantissa : Nat) (exponent : Int) : Nat :=
  if mantissa < 2 ^ 52 then mantissa
  else (exponent + 1075).toNat * 2 ^ 52 + (mantissa - 2 ^ 52)

theorem Canonical.encode_lt {mantissa : Nat} {exponent : Int}
    (canonical : Canonical mantissa exponent) : encode mantissa exponent < infinityBits := by
  obtain ⟨small, least, greatest, -⟩ := canonical
  unfold encode infinityBits
  split <;> omega

/-- What the fields of a bit pattern say. -/
theorem ofBits_of_lt {bits : Nat} (below : bits < infinityBits) (negative : Bool) :
    ∃ mantissa exponent, ofBits (signBit negative + bits) = .finite negative mantissa exponent ∧
      Canonical mantissa exponent ∧ encode mantissa exponent = bits := by
  -- The sign stands above all other bits, which are read as if it were not there.
  have sign : (signBit negative + bits) / 2 ^ 63 % 2 = if negative then 1 else 0 := by
    unfold infinityBits at below
    cases negative <;> simp only [signBit, Nat.pow_eq, if_true, Bool.false_eq_true, if_false] <;>
      omega
  have biased : (signBit negative + bits) / 2 ^ 52 % 2 ^ 11 = bits / 2 ^ 52 := by
    unfold infinityBits at below
    cases negative <;> simp only [signBit, Nat.pow_eq, if_true, Bool.false_eq_true, if_false] <;>
      omega
  have fraction : (signBit negative + bits) % 2 ^ 52 = bits % 2 ^ 52 := by
    cases negative <;> simp only [signBit, Nat.pow_eq, if_true, Bool.false_eq_true, if_false] <;>
      omega
  have read : ofBits (signBit negative + bits) =
      if bits / 2 ^ 52 = 0 then .finite negative (bits % 2 ^ 52) (-1074)
      else .finite negative (bits % 2 ^ 52 + 2 ^ 52) ((bits / 2 ^ 52 : Nat) - 1075) := by
    have notFull : bits / 2 ^ 52 ≠ 2047 := by
      unfold infinityBits at below
      omega
    simp only [ofBits, Nat.pow_eq, sign, biased, fraction, notFull, if_false]
    cases negative <;> rfl
  rw [read]
  unfold infinityBits at below
  split
  next zero =>
    refine ⟨_, _, rfl, ⟨by omega, by omega, by omega, .inr rfl⟩, ?_⟩
    rw [encode, if_pos (by omega)]
    omega
  next normal =>
    refine ⟨_, _, rfl, ⟨by omega, by omega, by omega, .inl (by omega)⟩, ?_⟩
    rw [encode, if_neg (by omega)]
    omega

theorem isFinite_of_lt {bits : Nat} (below : bits < infinityBits) (negative : Bool) :
    isFinite (signBit negative + bits) := by
  unfold infinityBits at below
  unfold isFinite
  cases negative <;> simp only [signBit, Nat.pow_eq, if_true, Bool.false_eq_true, if_false] <;>
    omega

theorem ofFloat_floatOfBits {bits : Nat} (below : bits < infinityBits) (negative : Bool) :
    ofFloat (floatOfBits negative bits) = ofBits (signBit negative + bits) := by
  have finite := isFinite_of_lt below negative
  have fits : (signBit negative + bits).toUInt64.toNat = signBit negative + bits := by
    have small : signBit negative + bits < 2 ^ 64 := by
      unfold infinityBits at below
      cases negative <;> simp only [signBit, Nat.pow_eq, if_true, Bool.false_eq_true, if_false] <;>
        omega
    exact Nat.mod_eq_of_lt small
  rw [← fits] at finite
  rw [ofFloat, floatOfBits, toBits_ofBits finite, fits]

/-- A finite double can be recovered from the number that it stands for. -/
theorem eq_floatOfBits {x : Float} {negative : Bool} {mantissa : Nat} {exponent : Int}
    (value : ofFloat x = .finite negative mantissa exponent) :
    Canonical mantissa exponent ∧ x = floatOfBits negative (encode mantissa exponent) := by
  have size : x.toBits.toNat < 2 ^ 64 := x.toBits.toNat_lt
  have finite : isFinite x.toBits.toNat := by
    intro full
    simp only [ofFloat, ofBits, Nat.pow_eq, full, if_true] at value
    split at value <;> simp at value
  -- The sign is the highest bit, and what is left is below infinity.
  obtain ⟨sign, bits, below, whole⟩ : ∃ sign bits, bits < infinityBits ∧
      x.toBits.toNat = signBit sign + bits := by
    refine ⟨decide (2 ^ 63 ≤ x.toBits.toNat), x.toBits.toNat % 2 ^ 63, ?_, ?_⟩
    · unfold isFinite at finite
      unfold infinityBits
      omega
    · by_cases high : 2 ^ 63 ≤ x.toBits.toNat <;>
        simp only [signBit, Nat.pow_eq, high, decide_true, decide_false, if_true,
          Bool.false_eq_true, if_false] <;> omega
  obtain ⟨m, e, read, canonical, encoded⟩ := ofBits_of_lt below sign
  rw [ofFloat, whole, read] at value
  obtain ⟨rfl, rfl, rfl⟩ := Binary64.finite.inj value
  refine ⟨canonical, ?_⟩
  rw [encoded, floatOfBits, ← whole]
  conv_lhs => rw [← ofBits_toBits finite]
  congr 1
  exact (UInt64.ofNat_toNat).symm

end Binary64
end Tide
