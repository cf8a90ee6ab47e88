import Mathlib
import Tide.Text.Utf8

/-!
# Pieces of a byte string

How reading a byte string as text behaves at a place where an ASCII byte stands: no piece reaches
across it, so what stands in front of it is read as if nothing followed. And a piece is spelled by
the bytes it was read from, whatever stands behind them.
-/
namespace Tide

theorem toNat_charOfNat {n : Nat} (valid : n.isValidChar) : (Char.ofNat n).toNat = n := by
  simp [Char.ofNat, valid, Char.toNat, Char.ofNatAux]

namespace Utf8

/-- Begins with an ASCII byte, if with anything. -/
def Parted (bytes : Bytes) : Prop := ∀ b ∈ bytes.head?, b < 0x80

theorem parted_cons {b : UInt8} (ascii : b < 0x80) (rest : Bytes) : Parted (b :: rest) := by
  simpa [Parted] using ascii

theorem isTail_of_lt {b : UInt8} (ascii : b < 0x80) : isTail b = false := by
  simp only [isTail, Bool.and_eq_false_iff, decide_eq_false_iff_not, UInt8.le_iff_toNat_le]
  rw [UInt8.lt_iff_toNat_lt] at ascii
  exact .inl (Nat.not_le.mpr ascii)

theorem isSecond_of_lt (lead : UInt8) {b : UInt8} (ascii : b < 0x80) : isSecond lead b = false := by
  have low : b.toNat < 128 := UInt8.lt_iff_toNat_lt.mp ascii
  unfold isSecond
  repeat' split
  all_goals
    first
    | exact isTail_of_lt ascii
    | simp only [Bool.and_eq_false_iff, decide_eq_false_iff_not, UInt8.le_iff_toNat_le]
      left
      simp only [UInt8.reduceToNat]
      omega

theorem uncons_ascii {lead : UInt8} (ascii : lead < 0x80) (tail : Bytes) :
    uncons lead tail = (.scalar (Char.ofNat lead.toNat), tail) := by
  unfold uncons
  rw [if_pos ascii]

theorem uncons_append {more : Bytes} (parted : Parted more) (lead : UInt8) (tail : Bytes) :
    uncons lead (tail ++ more) = ((uncons lead tail).1, (uncons lead tail).2 ++ more) := by
  cases more with
  | nil => simp
  | cons b more =>
    have ascii : b < 0x80 := parted b (by simp)
    have first := isSecond_of_lt lead ascii
    have later := isTail_of_lt ascii
    unfold uncons
    -- A piece that is cut short in front of the byte is a stray lead byte either way.
    split
    · rfl
    split
    · cases tail with
      | nil => simp [first]
      | cons c tail =>
        simp only [List.cons_append]
        split <;> rfl
    split
    · rcases tail with _ | ⟨c, _ | ⟨d, tail⟩⟩
      · cases more <;> simp [first]
      · simp [later]
      · simp only [List.cons_append]
        split <;> rfl
    split
    · rcases tail with _ | ⟨c, _ | ⟨d, _ | ⟨e, tail⟩⟩⟩
      · rcases more with _ | ⟨c, _ | ⟨d, more⟩⟩ <;> simp [first]
      · cases more <;> simp [later]
      · simp [later]
      · simp only [List.cons_append]
        split <;> rfl
    · rfl

/-! ### The bytes of a piece -/

theorem isTail_range {b : UInt8} (tail : isTail b = true) : 128 ≤ b.toNat ∧ b.toNat ≤ 191 := by
  simpa [isTail, UInt8.le_iff_toNat_le] using tail

/-- What a second byte says about its lead byte, in numbers. -/
theorem isSecond_range {lead b : UInt8} (second : isSecond lead b = true) :
    128 ≤ b.toNat ∧ b.toNat ≤ 191 ∧ (lead.toNat = 0xE0 → 160 ≤ b.toNat) ∧
      (lead.toNat = 0xED → b.toNat ≤ 159) ∧ (lead.toNat = 0xF0 → 144 ≤ b.toNat) ∧
      (lead.toNat = 0xF4 → b.toNat ≤ 143) := by
  unfold isSecond at second
  simp only [← UInt8.toNat_inj, UInt8.reduceToNat] at second
  repeat' split at second
  all_goals
    simp only [isTail, Bool.and_eq_true, decide_eq_true_eq, UInt8.le_iff_toNat_le,
      UInt8.reduceToNat] at second
    omega

theorem ofNat_eq {n : Nat} {b : UInt8} (same : n = b.toNat) : UInt8.ofNat n = b := by
  rw [same, UInt8.ofNat_toNat]

theorem encode_one {a : UInt8} (ascii : a < 0x80) :
    String.utf8EncodeChar (Char.ofNat a.toNat) = [a] := by
  simp only [UInt8.lt_iff_toNat_lt, UInt8.reduceToNat] at ascii
  have number : (Char.ofNat a.toNat).val.toNat = a.toNat := toNat_charOfNat (.inl (by omega))
  rw [String.utf8EncodeChar, number, if_pos (by omega), UInt8.ofNat_toNat]

theorem encode_two {a b : UInt8} (lead : 0xC2 ≤ a.toNat ∧ a.toNat ≤ 0xDF)
    (second : isSecond a b = true) :
    String.utf8EncodeChar (Char.ofNat (a.toNat % 32 * 64 + payload b)) = [a, b] := by
  have range := isSecond_range second
  have number := toNat_charOfNat (n := a.toNat % 32 * 64 + payload b)
    (.inl (by simp only [payload]; omega))
  rw [Char.toNat] at number
  simp only [payload] at number ⊢
  rw [String.utf8EncodeChar, number, if_neg (by omega), if_pos (by omega)]
  rw [ofNat_eq (b := a) (by omega), ofNat_eq (b := b) (by omega)]

theorem encode_three {a b c : UInt8} (lead : 0xE0 ≤ a.toNat ∧ a.toNat ≤ 0xEF)
    (second : isSecond a b = true) (third : isTail c = true) :
    String.utf8EncodeChar
      (Char.ofNat (a.toNat % 16 * 4096 + payload b * 64 + payload c)) = [a, b, c] := by
  have range := isSecond_range second
  have last := isTail_range third
  have number := toNat_charOfNat (n := a.toNat % 16 * 4096 + payload b * 64 + payload c)
    (by simp only [payload, Nat.isValidChar]; omega)
  rw [Char.toNat] at number
  simp only [payload] at number ⊢
  rw [String.utf8EncodeChar, number, if_neg (by omega), if_neg (by omega), if_pos (by omega)]
  rw [ofNat_eq (b := a) (by omega), ofNat_eq (b := b) (by omega), ofNat_eq (b := c) (by omega)]

theorem encode_four {a b c d : UInt8} (lead : 0xF0 ≤ a.toNat ∧ a.toNat ≤ 0xF4)
    (second : isSecond a b = true) (third : isTail c = true) (fourth : isTail d = true) :
    String.utf8EncodeChar (Char.ofNat (a.toNat % 8 * 262144 + payload b * 4096 + payload c * 64 +
      payload d)) = [a, b, c, d] := by
  have range := isSecond_range second
  have middle := isTail_range third
  have last := isTail_range fourth
  have number := toNat_charOfNat
    (n := a.toNat % 8 * 262144 + payload b * 4096 + payload c * 64 + payload d)
    (by simp only [payload, Nat.isValidChar]; omega)
  rw [Char.toNat] at number
  simp only [payload] at number ⊢
  rw [String.utf8EncodeChar, number, if_neg (by omega), if_neg (by omega), if_neg (by omega)]
  rw [ofNat_eq (b := a) (by omega), ofNat_eq (b := b) (by omega), ofNat_eq (b := c) (by omega),
    ofNat_eq (b := d) (by omega)]

theorem not_lt_of_isTail {b : UInt8} (tail : isTail b = true) : ¬ b < 0x80 := fun ascii => by
  simp [isTail_of_lt ascii] at tail

theorem not_lt_of_isSecond {lead b : UInt8} (second : isSecond lead b = true) : ¬ b < 0x80 :=
  fun ascii => by simp [isSecond_of_lt lead ascii] at second

/-- A lead byte is stray, or it begins an encoding that is the same whatever follows it. -/
theorem uncons_cases (lead : UInt8) (tail : Bytes) :
    uncons lead tail = (.invalid lead, tail) ∨
      ∃ c taken rest, tail = taken ++ rest ∧ (∀ b ∈ taken, ¬ b < 0x80) ∧
        String.utf8EncodeChar c = lead :: taken ∧
        ∀ more, uncons lead (taken ++ more) = (.scalar c, more) := by
  by_cases ascii : lead < 0x80
  · exact .inr ⟨_, [], tail, rfl, by simp, encode_one ascii, uncons_ascii ascii⟩
  -- Every further lead byte asks for a fixed number of bytes behind it.
  by_cases two : (0xC2 ≤ lead && lead ≤ 0xDF) = true
  · rcases tail with _ | ⟨b, rest⟩
    · exact .inl (by simp [uncons, ascii, two])
    · by_cases second : isSecond lead b = true
      · have range : 0xC2 ≤ lead.toNat ∧ lead.toNat ≤ 0xDF := by
          simpa [UInt8.le_iff_toNat_le] using two
        refine .inr ⟨_, [b], rest, rfl, ?_, encode_two range second, fun more => ?_⟩
        · simpa using not_lt_of_isSecond second
        · simp [uncons, ascii, two, second]
      · exact .inl (by simp [uncons, ascii, two, second])
  by_cases three : (0xE0 ≤ lead && lead ≤ 0xEF) = true
  · rcases tail with _ | ⟨b, _ | ⟨c, rest⟩⟩
    · exact .inl (by simp [uncons, ascii, two, three])
    · exact .inl (by simp [uncons, ascii, two, three])
    · by_cases both : (isSecond lead b && isTail c) = true
      · have range : 0xE0 ≤ lead.toNat ∧ lead.toNat ≤ 0xEF := by
          simpa [UInt8.le_iff_toNat_le] using three
        obtain ⟨second, third⟩ := Bool.and_eq_true_iff.mp both
        refine .inr ⟨_, [b, c], rest, rfl, ?_, encode_three range second third, fun more => ?_⟩
        · simpa using And.intro (not_lt_of_isSecond second) (not_lt_of_isTail third)
        · simp [uncons, ascii, two, three, second, third]
      · exact .inl (by simp [uncons, ascii, two, three, both])
  by_cases four : (0xF0 ≤ lead && lead ≤ 0xF4) = true
  · rcases tail with _ | ⟨b, _ | ⟨c, _ | ⟨d, rest⟩⟩⟩
    · exact .inl (by simp [uncons, ascii, two, three, four])
    · exact .inl (by simp [uncons, ascii, two, three, four])
    · exact .inl (by simp [uncons, ascii, two, three, four])
    · by_cases all : (isSecond lead b && isTail c && isTail d) = true
      · have range : 0xF0 ≤ lead.toNat ∧ lead.toNat ≤ 0xF4 := by
          simpa [UInt8.le_iff_toNat_le] using four
        obtain ⟨both, fourth⟩ := Bool.and_eq_true_iff.mp all
        obtain ⟨second, third⟩ := Bool.and_eq_true_iff.mp both
        refine .inr ⟨_, [b, c, d], rest, rfl, ?_, encode_four range second third fourth,
          fun more => ?_⟩
        · simpa using And.intro (not_lt_of_isSecond second)
            (And.intro (not_lt_of_isTail third) (not_lt_of_isTail fourth))
        · simp [uncons, ascii, two, three, four, second, third, fourth]
      · exact .inl (by simp [uncons, ascii, two, three, four, all])
  · exact .inl (by simp [uncons, ascii, two, three, four])

/-- The bytes of a first piece stand at the front, and only the first of them can be ASCII. -/
theorem uncons_bytes (lead : UInt8) (tail : Bytes) :
    ∃ taken, tail = taken ++ (uncons lead tail).2 ∧ (uncons lead tail).1.bytes = lead :: taken ∧
      ∀ b ∈ taken, ¬ b < 0x80 := by
  rcases uncons_cases lead tail with stray | ⟨c, taken, rest, rfl, high, encoded, same⟩
  · exact ⟨[], by simp [stray], by simp [stray, Piece.bytes], by simp⟩
  · exact ⟨taken, by rw [same], by rw [same]; exact encoded, high⟩

/-- A run of accepted pieces stands at the front, and an ASCII byte in it is a piece of its own. -/
theorem span_bytes (accept : Char → Bool) (bytes : Bytes) :
    bytes = (span accept bytes).1 ++ (span accept bytes).2 ∧
      ∀ b ∈ (span accept bytes).1, b < 0x80 → accept (Char.ofNat b.toNat) = true := by
  fun_induction span accept bytes with
  | case1 => simp
  | case2 lead tail first accepted run ih =>
    obtain ⟨taken, behind, spelled, high⟩ := uncons_bytes lead tail
    refine ⟨?_, fun b member ascii => ?_⟩
    · change lead :: tail = first.1.bytes ++ run.1 ++ run.2
      rw [spelled, List.append_assoc, ← ih.1, List.cons_append, ← behind]
    · rcases List.mem_append.mp member with inPiece | later
      · rw [spelled] at inPiece
        rcases List.mem_cons.mp inPiece with rfl | inTaken
        · simpa [first, uncons_ascii ascii, Piece.char] using accepted
        · exact absurd ascii (high b inTaken)
      · exact ih.2 b later ascii
  | case3 => simp

end Utf8
end Tide
