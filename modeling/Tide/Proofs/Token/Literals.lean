import Tide.Proofs.Text.Widths
import Tide.Proofs.Token.Boundary

/-!
# String literals

Writing a string as a literal and scanning it are inverse. Whatever bytes the string has and
whatever stands behind its literal, the scanner takes the literal and no more, gives the string
back, and has nothing to warn of. Its position moves over the literal, one column for each
character.

## Proof strategy

A literal is written byte by byte, and it is read character by character. An escaped byte is read as
the pair that it was written as, and any other ASCII byte is read alone. There remain the characters
of several bytes: none of these bytes is ASCII, so each of them stands for itself in the literal,
and the string has the same bytes in a row. The closing quote is ASCII, so no character reaches
across it, and what stands behind it is not looked at.
-/
namespace Tide

open Utf8

namespace Position

theorem forward_forward (p : Position) (width width' columns columns' : Nat) :
    (p.forward width columns).forward width' columns' =
      p.forward (width + width') (columns + columns') := by
  simp only [forward, Nat.cast_add, Int.add_assoc]

theorem next_eq_forward {b : UInt8} (noFeed : b ≠ '\n'.toUInt8) (p : Position) :
    p.next b = p.forward 1 1 := by
  simp [next, forward, noFeed]

theorem next_forward {b : UInt8} (noFeed : b ≠ '\n'.toUInt8) (p : Position)
    (width columns : Nat) :
    (p.next b).forward width columns = p.forward (width + 1) (columns + 1) := by
  rw [next_eq_forward noFeed, forward_forward, Nat.add_comm 1, Nat.add_comm 1]

end Position

namespace Scan

/-! ### The inside of a literal -/

/-- Between double quotes, wherever they stand and whatever follows, the text is read as the value:
nothing is warned of, and every character takes one column. -/
def Denotes (text value : Bytes) : Prop :=
  ∀ p more, readString '"'.toUInt8 p (text ++ '"'.toUInt8 :: more) =
    ⟨value, [], .ok ⟨p.forward (text.length + 1) (count text + 1), more⟩⟩

theorem unescape_range {e : UInt8} {bytes : Bytes} (known : unescape e = some bytes) :
    e < 0x80 ∧ e ≠ '\n'.toUInt8 := by
  unfold unescape at known
  split at known
  next letter => subst letter; decide
  split at known
  next letter => subst letter; decide
  split at known
  next special => obtain rfl | rfl | rfl := special <;> decide
  next => simp at known

namespace Denotes

variable {text value : Bytes}

theorem nil : Denotes [] [] := by
  intro p more
  rw [List.nil_append, readString_close, Position.next_eq_forward (by decide), count_nil]
  rfl

theorem escape {e : UInt8} {bytes : Bytes} (known : unescape e = some bytes)
    (denotes : Denotes text value) : Denotes ('\\'.toUInt8 :: e :: text) (bytes ++ value) := by
  intro p more
  -- The byte behind a backslash takes a column of its own, so it has to be ASCII.
  obtain ⟨ascii, noFeed⟩ := unescape_range known
  rw [List.cons_append, List.cons_append, readString_escape (by decide), known]
  simp only
  rw [denotes, Position.next_forward noFeed, Position.next_forward (by decide),
    count_ascii (by decide), count_ascii ascii, Nat.add_comm 1, Nat.add_comm 1]
  rfl

theorem ascii {b : UInt8} (low : b < 0x80) (noQuote : b ≠ '"'.toUInt8)
    (noEscape : b ≠ '\\'.toUInt8) (noFeed : b ≠ '\n'.toUInt8) (denotes : Denotes text value) :
    Denotes (b :: text) (b :: value) := by
  intro p more
  rw [List.cons_append, readString_ascii noQuote noEscape low, denotes,
    Position.next_forward noFeed, count_ascii low, Nat.add_comm 1]
  rfl

theorem piece {lead : UInt8} (high : ¬ lead < 0x80) (denotes : Denotes (uncons lead text).2 value) :
    Denotes (lead :: text) ((uncons lead text).1.bytes ++ value) := by
  intro p more
  -- The quote keeps the character from reaching into what follows.
  have closed : Parted ('"'.toUInt8 :: more) := parted_cons (by decide) more
  have other {b : UInt8} (low : b < 0x80) : lead ≠ b := by
    rintro rfl
    exact high low
  obtain ⟨taken, split, spelled, -⟩ := uncons_bytes lead text
  have size : (lead :: text).length =
      (uncons lead text).1.bytes.length + (uncons lead text).2.length := by
    rw [spelled, ← List.length_append, List.cons_append, ← split]
  rw [List.cons_append, readString_piece (other (by decide)) (other (by decide)) high,
    uncons_append closed]
  simp only
  rw [denotes, Position.forward_forward, count_cons, size, Nat.add_assoc, Nat.add_assoc]

/-- The token that two quotes make of the text. -/
theorem token (denotes : Denotes text value) (p : Position) (more : Bytes) :
    next ⟨p, '"'.toUInt8 :: (text ++ '"'.toUInt8 :: more)⟩ =
      let behind := p.forward (text.length + 2) (count text + 2)
      .token ⟨.string, value, ⟨p, behind⟩⟩ [] ⟨behind, more⟩ := by
  rw [next_quoted (by decide), readQuoted, denotes, Position.next_forward (by decide)]

end Denotes

/-! ### Writing -/

/-- A byte is written behind a backslash, or it stands for itself. -/
theorem encodeByte_cases (b : UInt8) :
    (∃ e, Literal.encodeByte b = ['\\'.toUInt8, e] ∧ unescape e = some [b]) ∨
      Literal.encodeByte b = [b] ∧ b ≠ '"'.toUInt8 ∧ b ≠ '\\'.toUInt8 ∧ b ≠ '\n'.toUInt8 := by
  unfold Literal.encodeByte
  split
  next special =>
    refine .inl ⟨b, rfl, ?_⟩
    obtain rfl | rfl := special <;> decide
  next special =>
  obtain ⟨noQuote, noEscape⟩ := not_or.mp special
  split
  next feed => exact .inl ⟨'n'.toUInt8, by decide, by rw [feed]; decide⟩
  next noFeed =>
  split
  next tab => exact .inl ⟨'t'.toUInt8, by decide, by rw [tab]; decide⟩
  next => exact .inr ⟨rfl, noQuote, noEscape, noFeed⟩

/-- Bytes outside of ASCII stand for themselves, and nothing else is written with them. -/
theorem encode_high {taken value rest : Bytes} (high : ∀ b ∈ taken, ¬ b < 0x80)
    (same : value.flatMap Literal.encodeByte = taken ++ rest) :
    ∃ left, value = taken ++ left ∧ rest = left.flatMap Literal.encodeByte := by
  induction taken generalizing value with
  | nil => exact ⟨value, rfl, same.symm⟩
  | cons h taken ih =>
    obtain ⟨first, others⟩ := List.forall_mem_cons.mp high
    cases value with
    | nil => simp at same
    | cons b value =>
      rw [List.flatMap_cons] at same
      rcases encodeByte_cases b with ⟨e, escaped, -⟩ | ⟨plain, -⟩
      · rw [escaped] at same
        obtain ⟨rfl, -⟩ := List.cons.inj same
        exact absurd (show '\\'.toUInt8 < 0x80 by decide) first
      · rw [plain] at same
        obtain ⟨rfl, behind⟩ := List.cons.inj same
        obtain ⟨left, rfl, rest⟩ := ih others behind
        exact ⟨left, rfl, rest⟩

theorem denotes_encode (value : Bytes) : Denotes (value.flatMap Literal.encodeByte) value := by
  -- One step of the reader may take several bytes of the string, so the induction is on its length.
  induction size : value.length using Nat.strongRecOn generalizing value with
  | _ n ih =>
    cases value with
    | nil => exact .nil
    | cons b value =>
      subst size
      have behind := ih _ (Nat.lt_succ_self _) value rfl
      rw [List.flatMap_cons]
      rcases encodeByte_cases b with ⟨e, escaped, known⟩ | ⟨plain, noQuote, noEscape, noFeed⟩
      · rw [escaped]
        exact behind.escape known
      rw [plain]
      by_cases low : b < 0x80
      · exact behind.ascii low noQuote noEscape noFeed
      -- A character takes bytes that stand for themselves, and so a piece of the string.
      obtain ⟨taken, split, spelled, high⟩ := uncons_bytes b (value.flatMap Literal.encodeByte)
      obtain ⟨left, rfl, rest⟩ := encode_high high split
      have shorter : left.length < (b :: (taken ++ left)).length := by
        simp only [List.length_cons, List.length_append]
        omega
      have later := ih _ shorter left rfl
      rw [← rest] at later
      have whole := later.piece low
      rwa [spelled] at whole

theorem encode_eq (value : Bytes) : Literal.encode value =
    '"'.toUInt8 :: (value.flatMap Literal.encodeByte ++ ['"'.toUInt8]) := rfl

theorem count_encode (value : Bytes) :
    count (Literal.encode value) = count (value.flatMap Literal.encodeByte) + 2 := by
  rw [encode_eq, count_ascii (by decide), count_append_ascii (by decide), count_nil]
  omega

/-- A literal scans to its string and ends where it ends, also in front of bytes that would go on
with a character. -/
theorem next_encode (value more : Bytes) (p : Position) :
    next ⟨p, Literal.encode value ++ more⟩ =
      let behind := p.forward (Literal.encode value).length (count (Literal.encode value))
      .token ⟨.string, value, ⟨p, behind⟩⟩ [] ⟨behind, more⟩ := by
  have size : (Literal.encode value).length = (value.flatMap Literal.encodeByte).length + 2 := by
    simp [encode_eq]
  have source : Literal.encode value ++ more =
      '"'.toUInt8 :: (value.flatMap Literal.encodeByte ++ '"'.toUInt8 :: more) := by
    simp [encode_eq]
  rw [source, (denotes_encode value).token, count_encode, size]

/-- A lead byte inside of the literal and a tail behind it make no character. -/
example : next ⟨.first, Literal.encode [0xC3] ++ [0xA9]⟩ =
    .token ⟨.string, [0xC3], ⟨.first, ⟨3, 1, 4⟩⟩⟩ [] ⟨⟨3, 1, 4⟩, [0xA9]⟩ := by cbv

end Scan
end Tide
