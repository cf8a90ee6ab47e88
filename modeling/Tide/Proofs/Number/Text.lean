import Tide.Number.Layout
import Tide.Number.Reading
import Tide.Proofs.Number.Digits
import Tide.Proofs.Token.Spelling

/-!
# Numbers are read back

The text of a finite double is an optional sign and a run of digits with at most one point among
them, and reading it gives the double again. Conversely only finite doubles are read from a sign and
a run of digits and points, which is all that a source can hold of a number.
-/
namespace Tide

open Scan (isDigit isRun isRun_of_isDigit isRun_range ne_of_isRun)

/-! ### Runs of digits and points -/

namespace Numeric

theorem lower_run {b : UInt8} (run : isRun b = true) : lower b = b := by
  have range := isRun_range run
  have noUpper : ('A'.toUInt8 ≤ b && b ≤ 'Z'.toUInt8) = false := by
    simp only [Bool.and_eq_false_iff, decide_eq_false_iff_not, UInt8.le_iff_toNat_le]
    left
    change ¬ 65 ≤ b.toNat
    omega
  simp [lower, noUpper]

/-- What may stand in front of a run. -/
def signs : List Bytes := [[], ['-'.toUInt8], ['+'.toUInt8]]

theorem readSign_run {sign : Bytes} (known : sign ∈ signs) {b : UInt8} {run : Bytes}
    (digit : isDigit b = true) :
    readSign (sign ++ b :: run) = (decide (sign = ['-'.toUInt8]), b :: run) := by
  have noMinus : b ≠ '-'.toUInt8 := ne_of_isRun (isRun_of_isDigit digit) (by decide)
  have noPlus : b ≠ '+'.toUInt8 := ne_of_isRun (isRun_of_isDigit digit) (by decide)
  simp only [signs, List.mem_cons, List.not_mem_nil, or_false] at known
  obtain rfl | rfl | rfl := known
  · simp [readSign, noMinus, noPlus]
  · simp [readSign]
  · rfl

theorem readName?_run {sign : Bytes} (known : sign ∈ signs) {b : UInt8} {run : Bytes}
    (digit : isDigit b = true) : readName? (sign ++ b :: run) = none := by
  have small := lower_run (isRun_of_isDigit digit)
  have other {c : UInt8} (outside : 57 < c.toNat) : b ≠ c :=
    ne_of_isRun (isRun_of_isDigit digit) (.inr (.inr outside))
  -- Letters are above the digits, so no name of a number begins as a run does.
  have noName (word : String) (c : UInt8) (rest : Bytes) (spelled : utf8 word = c :: rest)
      (outside : 57 < c.toNat) : (b :: run).map lower ≠ utf8 word := by
    rw [spelled, List.map_cons, small]
    intro same
    exact other outside (List.cons.inj same).1
  have noNan : (sign ++ b :: run).map lower ≠ utf8 "nan" := by
    simp only [signs, List.mem_cons, List.not_mem_nil, or_false] at known
    obtain rfl | rfl | rfl := known
    · exact noName "nan" 'n'.toUInt8 _ rfl (by decide)
    · intro same
      exact absurd (List.cons.inj same).1 (by decide)
    · intro same
      exact absurd (List.cons.inj same).1 (by decide)
  simp only [readName?, readSign_run known digit]
  rw [if_neg, if_neg noNan]
  rintro (inf | infinity)
  · exact noName "inf" 'i'.toUInt8 _ rfl (by decide) inf
  · exact noName "infinity" 'i'.toUInt8 _ rfl (by decide) infinity

/-- A sign and a run are read as a decimal number. -/
theorem read?_run {sign : Bytes} (known : sign ∈ signs) {b : UInt8} {run : Bytes}
    (digit : isDigit b = true) (inRun : run.all isRun = true) :
    Number.read? (sign ++ b :: run) =
      readDecimal? (decide (sign = ['-'.toUInt8])) (b :: run) := by
  have all : ∀ c ∈ b :: run, isRun c = true :=
    List.forall_mem_cons.mpr ⟨isRun_of_isDigit digit, List.all_eq_true.mp inRun⟩
  have noUnderscore : (b :: run).any isUnderscore = false := by
    rw [List.any_eq_false]
    intro c member
    have other : c ≠ '_'.toUInt8 := ne_of_isRun (all c member) (by decide)
    simp [isUnderscore, other]
  -- The second byte of a hexadecimal number is an `x`, which is in no run.
  have noHexadecimal : hexadecimalBody? (b :: run) = none := by
    unfold hexadecimalBody?
    split
    next m c rest same =>
      rw [if_neg]
      rintro ⟨-, marker⟩
      have member : m ∈ b :: run := by simp [same]
      rw [lower_run (all m member)] at marker
      exact ne_of_isRun (all m member) (by decide) marker
    next => rfl
  simp only [Number.read?, readName?_run known digit, readSign_run known digit, noUnderscore,
    Bool.false_and, Bool.false_eq_true, if_false, noHexadecimal]

end Numeric
/-- Neither infinite nor undefined. -/
def Number.Finite (x : Float) : Prop :=
  ∃ negative mantissa exponent, Binary64.ofFloat x = .finite negative mantissa exponent

namespace Binary64

theorem finite_floatOfBits {bits : Nat} (below : bits < infinityBits) (negative : Bool) :
    Number.Finite (floatOfBits negative bits) := by
  obtain ⟨m, e, read, -⟩ := ofBits_of_lt below negative
  exact ⟨negative, m, e, (ofFloat_floatOfBits below negative).trans read⟩

theorem finite_of_nearest? {negative : Bool} {value base : Nat} {exponent : Int} {x : Float}
    (read : nearest? negative value base exponent = some x) : Number.Finite x := by
  simp only [nearest?] at read
  split at read
  · obtain rfl := Option.some.inj read
    exact finite_floatOfBits (by decide) negative
  split at read
  · simp at read
  generalize (if exponent < 0 then nearestBits value (Nat.pow base (-exponent).toNat)
    else nearestBits (value * Nat.pow base exponent.toNat) 1) = bits at read
  split at read
  next below =>
    obtain rfl := Option.some.inj read
    exact finite_floatOfBits below negative
  next => simp at read

end Binary64

/-- Only finite numbers are read from what a source can hold. -/
theorem Numeric.finite_of_read? {sign : Bytes} (known : sign ∈ signs) {b : UInt8} {run : Bytes}
    (digit : isDigit b = true) (inRun : run.all isRun = true) {x : Float}
    (read : Number.read? (sign ++ b :: run) = some x) : Number.Finite x := by
  rw [read?_run known digit inRun] at read
  unfold readDecimal? at read
  simp only at read
  split at read
  next =>
    split at read
    next => exact Binary64.finite_of_nearest? read
    next =>
      split at read
      next =>
        split at read
        next => exact Binary64.finite_of_nearest? read
        next => simp at read
      next => simp at read
  next => simp at read

/-! ### The text of a decimal -/

/-- The bytes of a list of digits. -/
def digitBytes (digits : List Char) : Bytes := digits.map Char.toUInt8

theorem toNat_toUInt8 {c : Char} (digit : c.isDigit = true) :
    c.toUInt8.toNat = c.toNat ∧ 48 ≤ c.toNat ∧ c.toNat ≤ 57 := by
  have range : 48 ≤ c.toNat ∧ c.toNat ≤ 57 := by
    simpa [Char.isDigit, UInt32.le_iff_toNat_le] using digit
  refine ⟨?_, range⟩
  change c.toNat % 256 = c.toNat
  omega

theorem isDigit_toUInt8 {c : Char} (digit : c.isDigit = true) : isDigit c.toUInt8 = true := by
  obtain ⟨same, range⟩ := toNat_toUInt8 digit
  simp only [isDigit, Bool.and_eq_true, decide_eq_true_eq, UInt8.le_iff_toNat_le, same]
  exact range

namespace Numeric

theorem readDigits_digits {digits : List Char} (all : ∀ c ∈ digits, c.isDigit = true)
    (filled : digits ≠ []) (d : Digits) (rest : Bytes) :
    readDigits 10 d (digitBytes digits ++ rest) =
      readDigits 10
        { d with
          value := Nat.ofDigitChars 10 digits d.value
          places := if d.sawPoint then d.places + digits.length else d.places
          sawDigit := true } rest := by
  -- On the digits, with what was read before them left open.
  induction digits generalizing d with
  | nil => exact absurd rfl filled
  | cons c digits ih =>
    obtain ⟨first, others⟩ := List.forall_mem_cons.mp all
    obtain ⟨same, low, high⟩ := toNat_toUInt8 first
    have inRun := isRun_of_isDigit (isDigit_toUInt8 first)
    have noUnderscore : isUnderscore c.toUInt8 = false := by
      have other : c.toUInt8 ≠ '_'.toUInt8 := ne_of_isRun inRun (by decide)
      simp [isUnderscore, other]
    have noPoint : isPoint c.toUInt8 = false := by
      have other : c.toUInt8 ≠ '.'.toUInt8 := by
        rw [← UInt8.toNat_inj.ne, same]
        change c.toNat ≠ 46
        omega
      simp [isPoint, other]
    have value : digit? 10 c.toUInt8 = some (c.toNat - '0'.toNat) := by
      have decimal : isDecimal c.toUInt8 = true := isDigit_toUInt8 first
      simp [digit?, decimal, same]
    have step : readDigits 10 d (digitBytes (c :: digits) ++ rest) =
        readDigits 10
          { d with
            value := d.value * 10 + (c.toNat - '0'.toNat)
            places := if d.sawPoint then d.places + 1 else d.places
            sawDigit := true } (digitBytes digits ++ rest) := by
      rw [digitBytes, List.map_cons, List.cons_append, readDigits]
      simp only [noUnderscore, noPoint, value, Bool.false_eq_true, if_false]
      rfl
    rw [step, Nat.ofDigitChars_cons, Nat.mul_comm 10]
    cases digits with
    | nil => cases d.sawPoint <;> simp [digitBytes]
    | cons c' digits =>
      rw [ih others (by simp)]
      cases d.sawPoint <;> simp [Nat.add_assoc, Nat.add_comm 1]

/-- Digits, and perhaps a point with more digits behind it, are one decimal number. -/
theorem readDecimal?_digits {whole fraction : List Char} (filled : whole ≠ [])
    (all : ∀ c ∈ whole ++ fraction, c.isDigit = true) (negative : Bool) :
    readDecimal? negative
        (digitBytes whole ++ if fraction = [] then [] else '.'.toUInt8 :: digitBytes fraction) =
      Binary64.nearest? negative (Nat.ofDigitChars 10 (whole ++ fraction) 0) 10
        (-(fraction.length : Int)) := by
  have first := fun c member => all c (List.mem_append_left _ member)
  have second := fun c member => all c (List.mem_append_right _ member)
  rw [readDecimal?, readDigits_digits first filled]
  by_cases empty : fraction = []
  · simp [empty, readDigits]
  · have point : isUnderscore '.'.toUInt8 = false ∧ isPoint '.'.toUInt8 = true := by decide
    have behind := readDigits_digits second empty
      { value := Nat.ofDigitChars 10 whole 0, sawPoint := true, sawDigit := true } []
    rw [List.append_nil] at behind
    rw [if_neg empty, readDigits]
    simp only [point, Bool.false_eq_true, if_false, if_true, behind, readDigits, Nat.zero_add,
      Nat.ofDigitChars_append]

end Numeric

namespace NumberLayout

/-- The digits before and behind the point in the text of a decimal. Without a point there are none
behind it. -/
structure Positional (d : Decimal) (whole fraction : List Char) : Prop where
  filled : whole ≠ []
  digits : ∀ c ∈ whole ++ fraction, c.isDigit = true
  places : fraction.length = (-d.exponent).toNat
  value : (Nat.ofDigitChars 10 (whole ++ fraction) 0 : ℚ) = d.value * 10 ^ fraction.length
  text : positionalText d =
    digitBytes whole ++ if fraction = [] then [] else '.'.toUInt8 :: digitBytes fraction

theorem zeros_eq (n : Nat) : zeros n = digitBytes (List.replicate n '0') := by
  simp [zeros, digitBytes]

theorem bytes_ofNat_eq (n : Nat) : Bytes.ofNat n = digitBytes (Nat.toDigits 10 n) := rfl

theorem isDigit_of_mem_toDigits {n : Nat} {c : Char} (member : c ∈ Nat.toDigits 10 n) :
    c.isDigit = true :=
  Nat.isDigit_of_mem_toDigits (by decide) (by decide) member

theorem isDigit_of_mem_zeros {n : Nat} {c : Char} (member : c ∈ List.replicate n '0') :
    c.isDigit = true := by
  rw [List.eq_of_mem_replicate member]
  decide

/-- A decimal that is whole has no point, and zeros behind its digits unless it is zero. -/
theorem positional_whole {significand n : Nat} :
    Positional ⟨significand, n⟩ (Nat.toDigits 10 significand ++ if significand = 0 then [] else
      List.replicate n '0') [] where
  filled := by simp [Nat.toDigits_ne_nil]
  digits := by
    intro c member
    rw [List.append_nil, List.mem_append] at member
    rcases member with member | member
    · exact isDigit_of_mem_toDigits member
    · split at member
      · simp at member
      · exact isDigit_of_mem_zeros member
  places := by simp
  value := by
    rw [List.append_nil, Nat.ofDigitChars_append, Nat.ofDigitChars_ten_toDigits, Decimal.value]
    split
    next zero => simp [zero]
    next =>
      rw [Nat.ofDigitChars_replicate_zero]
      push_cast
      simp [mul_comm]
  text := by
    simp only [positionalText, bytes_ofNat_eq, zeros_eq, Int.toNat_natCast]
    rw [if_pos (Int.natCast_nonneg n)]
    split <;> simp [digitBytes]

/-- The digits are filled up to one digit before the point, and cut where the point belongs. -/
theorem positional_places {significand n k : Nat} (placesPos : 0 < n) {all : List Char}
    (padding : n + 1 - (Nat.toDigits 10 significand).length = k)
    (padded : List.replicate k '0' ++ Nat.toDigits 10 significand = all) :
    Positional ⟨significand, -(n : Int)⟩ (all.take (all.length - n))
      (all.drop (all.length - n)) := by
  -- The zeros in front leave at least one digit before the point.
  have long : n + 1 ≤ all.length := by
    rw [← padded, List.length_append, List.length_replicate]
    omega
  have places : (all.drop (all.length - n)).length = n := by
    rw [List.length_drop]
    omega
  constructor
  case filled =>
    rw [ne_eq, List.take_eq_nil_iff, not_or]
    refine ⟨by omega, ?_⟩
    rintro rfl
    simp at long
  case digits =>
    rw [List.take_append_drop, ← padded]
    intro c member
    exact (List.mem_append.mp member).elim isDigit_of_mem_zeros isDigit_of_mem_toDigits
  case places => simpa using places
  case value =>
    rw [places, List.take_append_drop, ← padded, Nat.ofDigitChars_append,
      Nat.ofDigitChars_replicate_zero, Nat.mul_zero, Nat.ofDigitChars_ten_toDigits, Decimal.value,
      zpow_neg, zpow_natCast]
    field_simp
  case text =>
    have behind : all.drop (all.length - n) ≠ [] := by
      rw [ne_eq, List.drop_eq_nil_iff]
      omega
    have bytes : digitBytes (List.replicate k '0') ++ digitBytes (Nat.toDigits 10 significand) =
        digitBytes all := by
      rw [← padded, digitBytes, digitBytes, digitBytes, List.map_append]
    have size (digits : List Char) : (digitBytes digits).length = digits.length :=
      List.length_map _
    have count : (- -(n : Int)).toNat = n := by omega
    simp only [positionalText, bytes_ofNat_eq, zeros_eq]
    rw [if_neg (by omega), count, size, padding, bytes, size, if_neg behind, digitBytes, digitBytes,
      digitBytes, List.map_take, List.map_drop, List.append_assoc]
    rfl

theorem positionalText_spec (d : Decimal) : ∃ whole fraction, Positional d whole fraction := by
  obtain ⟨significand, exponent⟩ := d
  obtain ⟨n, rfl | rfl⟩ := exponent.eq_nat_or_neg
  · exact ⟨_, _, positional_whole⟩
  · rcases n.eq_zero_or_pos with rfl | placesPos
    · exact ⟨_, _, positional_whole⟩
    · exact ⟨_, _, positional_places placesPos rfl rfl⟩

end NumberLayout

namespace Number

theorem finite_spec {x : Float} (finite : Finite x) :
    ∃ negative mantissa exponent, Binary64.Canonical mantissa exponent ∧
      x = Binary64.floatOfBits negative (Binary64.encode mantissa exponent) ∧
      render x = (if negative then ['-'.toUInt8] else []) ++
        NumberLayout.positionalText (.shortest mantissa exponent) := by
  obtain ⟨negative, mantissa, exponent, value⟩ := finite
  obtain ⟨canonical, same⟩ := Binary64.eq_floatOfBits value
  refine ⟨negative, mantissa, exponent, canonical, same, ?_⟩
  simp only [render, NumberLayout.render, value, NumberLayout.decimalText, NumberLayout.plain,
    or_true, if_true]
  cases negative <;> rfl

/-- The digits of a double are read as the double. -/
theorem nearest?_shortest {mantissa : Nat} {exponent : Int}
    (canonical : Binary64.Canonical mantissa exponent) (negative : Bool) {value places : Nat}
    (count : places = (-(Decimal.shortest mantissa exponent).exponent).toNat)
    (same : (value : ℚ) = (Decimal.shortest mantissa exponent).value * 10 ^ places) :
    Binary64.nearest? negative value 10 (-(places : Int)) =
      some (Binary64.floatOfBits negative (Binary64.encode mantissa exponent)) := by
  have fraction : (Decimal.shortest mantissa exponent).value = value / (10 ^ places : Nat) := by
    rw [same]
    push_cast
    field_simp
  -- Zero has no interval around it and is read by a case of its own.
  rcases Nat.eq_zero_or_pos mantissa with rfl | mantissaPos
  · have zero : value = 0 := by
      have cast : (value : ℚ) = 0 := by
        rw [same, Decimal.shortest, if_pos rfl, Decimal.value]
        simp
      exact_mod_cast cast
    rw [zero]
    simp [Binary64.nearest?, Binary64.encode]
  obtain ⟨inside, bound⟩ := Decimal.shortest_spec canonical mantissaPos
  rw [fraction] at inside
  have positive : 0 < value := by
    have quotient := Binary64.pos_of_holds mantissaPos inside
    rw [div_pos_iff_of_pos_right (by positivity)] at quotient
    exact_mod_cast quotient
  have bits := Binary64.nearestBits_of_holds canonical mantissaPos positive
    (Nat.pow_pos (by decide)) inside
  have below := canonical.encode_lt
  -- At most 400 places are written, so neither shortcut for far exponents is taken.
  have ten : Nat.log2 10 = 3 := by rfl
  simp only [Binary64.nearest?, ten]
  rw [if_neg (by omega), if_neg (by omega)]
  split
  next negative =>
    rw [neg_neg, Int.toNat_natCast, Nat.pow_eq, bits, if_pos below]
  next whole =>
    obtain rfl : places = 0 := by omega
    simp only [Nat.cast_zero, neg_zero, Int.toNat_zero, Nat.pow_eq, Nat.pow_zero, Nat.mul_one]
    rw [Nat.pow_zero] at bits
    rw [bits, if_pos below]

theorem getLast?_digitBytes {digits : List Char} (filled : digits ≠ [])
    (all : ∀ c ∈ digits, c.isDigit = true) (front : Bytes) :
    (front ++ digitBytes digits).getLast? ≠ some '.'.toUInt8 := by
  obtain ⟨others, last, rfl⟩ := List.eq_nil_or_concat digits |>.resolve_left filled
  have digit := isDigit_toUInt8 (all last (by simp))
  have text : front ++ digitBytes (others.concat last) =
      (front ++ digitBytes others) ++ [last.toUInt8] := by
    simp [digitBytes]
  rw [text, List.getLast?_concat, ne_eq, Option.some_inj]
  intro point
  rw [point] at digit
  exact absurd digit (by decide)

/-- A finite number is an optional sign and a run of digits and points that begins and ends with a
digit, and it is read back. -/
theorem render_spec {x : Float} (finite : Finite x) :
    ∃ sign b run, (sign = [] ∨ sign = ['-'.toUInt8]) ∧ isDigit b = true ∧
      run.all isRun = true ∧ (b :: run).getLast? ≠ some '.'.toUInt8 ∧
      render x = sign ++ b :: run ∧ read? (render x) = some x := by
  obtain ⟨negative, mantissa, exponent, canonical, rfl, text⟩ := finite_spec finite
  obtain ⟨whole, fraction, filled, all, count, value, positional⟩ :=
    NumberLayout.positionalText_spec (.shortest mantissa exponent)
  have first := fun c member => all c (List.mem_append_left _ member)
  have second := fun c member => all c (List.mem_append_right _ member)
  have read := Numeric.readDecimal?_digits filled all negative
  rw [nearest?_shortest canonical negative count value] at read
  have last : (digitBytes whole ++
      if fraction = [] then [] else '.'.toUInt8 :: digitBytes fraction).getLast? ≠
        some '.'.toUInt8 := by
    split
    next => simpa using getLast?_digitBytes filled first []
    next behind =>
      have ended := getLast?_digitBytes behind second (digitBytes whole ++ ['.'.toUInt8])
      rwa [List.append_assoc] at ended
  have inRun : (digitBytes whole ++
      if fraction = [] then [] else '.'.toUInt8 :: digitBytes fraction).all isRun = true := by
    have runs {digits : List Char} (all : ∀ c ∈ digits, c.isDigit = true) :
        (digitBytes digits).all isRun = true := by
      simp only [digitBytes, List.all_map, List.all_eq_true, Function.comp]
      exact fun c member => isRun_of_isDigit (isDigit_toUInt8 (all c member))
    rw [List.all_append, runs first, Bool.true_and]
    split
    · rfl
    · rw [List.all_cons, runs second]
      rfl
  rw [positional] at text
  -- The first digit is split off: by it the scanner tells a number from a word.
  obtain ⟨c, whole, rfl⟩ := List.exists_cons_of_ne_nil filled
  have digit := isDigit_toUInt8 (first c (by simp))
  generalize (if fraction = [] then [] else '.'.toUInt8 :: digitBytes fraction) = behind at *
  change _ = _ ++ c.toUInt8 :: (digitBytes whole ++ behind) at text
  change List.all (c.toUInt8 :: (digitBytes whole ++ behind)) _ = _ at inRun
  rw [List.all_cons, Bool.and_eq_true] at inRun
  refine ⟨if negative then ['-'.toUInt8] else [], c.toUInt8, digitBytes whole ++ behind, ?_, digit,
    inRun.2, last, text, ?_⟩
  · cases negative <;> simp
  · rw [text, Numeric.read?_run _ digit inRun.2]
    · cases negative <;> exact read
    · cases negative <;> simp [Numeric.signs]

end Number
end Tide
