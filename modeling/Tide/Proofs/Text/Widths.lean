import Tide.Proofs.Text.Pieces

/-!
# Counting characters

How many characters a byte string has, from its front to its back. Read from one byte further on, it
has one character less, unless that byte was the first of a longer one: the bytes behind it are then
no characters any more, and each of them counts. Where the bytes in front end with a whole
character, the characters on either side add up.
-/
namespace Tide.Utf8

/-- The bytes of the first character. -/
def width : Bytes → Nat
  | [] => 0
  | lead :: tail => (uncons lead tail).1.bytes.length

theorem count_nil : count [] = 0 := by
  simp [count, pieces]

theorem count_cons (lead : UInt8) (tail : Bytes) :
    count (lead :: tail) = 1 + count (uncons lead tail).2 := by
  rw [count, pieces, List.length_cons, Nat.add_comm]
  rfl

theorem count_ascii {lead : UInt8} (ascii : lead < 0x80) (tail : Bytes) :
    count (lead :: tail) = 1 + count tail := by
  rw [count_cons, uncons_ascii ascii]

/-! ### Inside of a character -/

/-- Behind the first byte of an encoding there are only tails. -/
theorem isTail_of_encode {c : Char} {lead : UInt8} {taken : Bytes}
    (encoded : String.utf8EncodeChar c = lead :: taken) : ∀ b ∈ taken, isTail b = true := by
  have tail (n : Nat) : isTail (UInt8.ofNat (n % 64 + 128)) = true := by
    simp only [isTail, Bool.and_eq_true, decide_eq_true_eq, UInt8.le_iff_toNat_le,
      UInt8.toNat_ofNat', UInt8.reduceToNat]
    omega
  rw [String.utf8EncodeChar] at encoded
  repeat' split at encoded
  all_goals
    obtain ⟨-, rfl⟩ := List.cons.inj encoded
    simp only [List.forall_mem_cons, tail, true_and, List.not_mem_nil, false_imp_iff, implies_true]

theorem uncons_of_isTail {b : UInt8} (inside : isTail b = true) (tail : Bytes) :
    uncons b tail = (.invalid b, tail) := by
  obtain ⟨low, high⟩ := isTail_range inside
  have ascii : ¬ b < 0x80 := not_lt_of_isTail inside
  have two : (0xC2 ≤ b && b ≤ 0xDF) = false := by
    simp [UInt8.le_iff_toNat_le]
    omega
  have three : (0xE0 ≤ b && b ≤ 0xEF) = false := by
    simp [UInt8.le_iff_toNat_le]
    omega
  have four : (0xF0 ≤ b && b ≤ 0xF4) = false := by
    simp [UInt8.le_iff_toNat_le]
    omega
  simp [uncons, ascii, two, three, four]

theorem count_tails {taken : Bytes} (inside : ∀ b ∈ taken, isTail b = true) (rest : Bytes) :
    count (taken ++ rest) = taken.length + count rest := by
  induction taken with
  | nil => simp
  | cons b taken ih =>
    rw [List.cons_append, count_cons, uncons_of_isTail (inside b (by simp)),
      ih fun b member => inside b (by simp [member]), List.length_cons]
    omega

/-- One byte further on there is one character less, and one more for each byte that the first
character had behind its own. -/
theorem count_cons_add_width (lead : UInt8) (tail : Bytes) :
    count (lead :: tail) + (width (lead :: tail) - 1) = 1 + count tail := by
  rcases uncons_cases lead tail with stray | ⟨c, taken, rest, rfl, -, encoded, same⟩
  · rw [count_cons, width, stray]
    rfl
  -- The character is broken up, and its further bytes count one each.
  · rw [count_cons, width, same, Piece.bytes, encoded, List.length_cons,
      count_tails (isTail_of_encode encoded), Nat.add_sub_cancel]
    change 1 + count rest + taken.length = _
    omega

/-! ### Characters on both sides -/

/-- Ends with a whole character, so that nothing that follows makes it longer. -/
def Whole (bytes : Bytes) : Prop := ∀ more, count (bytes ++ more) = count bytes + count more

theorem whole_nil : Whole [] := fun more => by simp [count_nil]

theorem Whole.append {first second : Bytes} (whole : Whole first) (whole' : Whole second) :
    Whole (first ++ second) := by
  intro more
  rw [List.append_assoc, whole, whole second, whole', Nat.add_assoc]

theorem count_append_ascii {b : UInt8} (ascii : b < 0x80) (bytes more : Bytes) :
    count (bytes ++ b :: more) = count bytes + 1 + count more := by
  induction size : bytes.length using Nat.strong_induction_on generalizing bytes with
  | _ n ih =>
    cases bytes with
    | nil => rw [List.nil_append, count_ascii ascii, count_nil, Nat.zero_add]
    | cons lead tail =>
      have shorter := uncons_rest_length lead tail
      rw [List.cons_append, count_cons, count_cons, uncons_append (parted_cons ascii more),
        ih _ (by simp only [List.length_cons] at size; omega) _ rfl]
      omega

theorem whole_of_ascii {b : UInt8} (ascii : b < 0x80) (bytes : Bytes) : Whole (bytes ++ [b]) := by
  intro more
  rw [List.append_assoc, List.singleton_append, count_append_ascii ascii,
    count_append_ascii ascii, count_nil, Nat.add_zero]

/-- A stray byte is not accepted, so a run of accepted pieces ends with a whole character. -/
theorem whole_span {accept : Char → Bool} (noStray : accept '\uFFFD' = false) (bytes : Bytes) :
    Whole (span accept bytes).1 := by
  fun_induction span accept bytes with
  | case1 => exact whole_nil
  | case2 lead tail first accepted run ih =>
    refine Whole.append ?_ ih
    rcases uncons_cases lead tail with stray | ⟨c, taken, rest, behind, -, encoded, same⟩
    · simp [first, stray, Piece.char, noStray] at accepted
    · have spelled : first.1.bytes = lead :: taken := by
        simp only [first, behind, same, Piece.bytes, encoded]
      rw [spelled]
      intro more
      have alone := same []
      rw [List.append_nil] at alone
      rw [List.cons_append, count_cons, count_cons, same, alone, count_nil]
  | case3 => exact whole_nil

end Tide.Utf8
