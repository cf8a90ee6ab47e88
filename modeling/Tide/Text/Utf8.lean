import Tide.Text.Bytes

/-!
# Reading bytes as text

A byte string is read from the left as a sequence of pieces: a well-formed encoding gives one
scalar value, and a byte that starts none stands for itself. Nothing is skipped, so the pieces
spell the bytes again, and no reading fails. Surrogates, overlong forms and values above U+10FFFF
are not well formed; their lead byte is a piece of its own and reading goes on behind it.
-/
namespace Tide

inductive Piece where
  | scalar (c : Char)
  | invalid (b : UInt8)
deriving DecidableEq, Repr

namespace Piece

def bytes : Piece → Bytes
  | .scalar c => String.utf8EncodeChar c
  | .invalid b => [b]

/-- A stray byte is shown as the replacement character. -/
def char : Piece → Char
  | .scalar c => c
  | .invalid _ => '\uFFFD'

end Piece

namespace Utf8

def isTail (b : UInt8) : Bool := 0x80 ≤ b && b ≤ 0xBF

/-- The second byte of a longer encoding has a narrower range behind the lead bytes at which
overlong forms, surrogates and values out of range would begin. -/
def isSecond (lead b : UInt8) : Bool :=
  if lead = 0xE0 then 0xA0 ≤ b && b ≤ 0xBF
  else if lead = 0xED then 0x80 ≤ b && b ≤ 0x9F
  else if lead = 0xF0 then 0x90 ≤ b && b ≤ 0xBF
  else if lead = 0xF4 then 0x80 ≤ b && b ≤ 0x8F
  else isTail b

def payload (b : UInt8) : Nat := b.toNat % 64

/-- The first piece of `lead :: tail`, and what stands behind it. -/
def uncons (lead : UInt8) (tail : Bytes) : Piece × Bytes :=
  if lead < 0x80 then (.scalar (Char.ofNat lead.toNat), tail)
  else if 0xC2 ≤ lead && lead ≤ 0xDF then
    match tail with
    | b :: rest =>
      if isSecond lead b then
        (.scalar (Char.ofNat (lead.toNat % 32 * 64 + payload b)), rest)
      else (.invalid lead, tail)
    | _ => (.invalid lead, tail)
  else if 0xE0 ≤ lead && lead ≤ 0xEF then
    match tail with
    | b :: c :: rest =>
      if isSecond lead b && isTail c then
        (.scalar (Char.ofNat (lead.toNat % 16 * 4096 + payload b * 64 + payload c)), rest)
      else (.invalid lead, tail)
    | _ => (.invalid lead, tail)
  else if 0xF0 ≤ lead && lead ≤ 0xF4 then
    match tail with
    | b :: c :: d :: rest =>
      if isSecond lead b && isTail c && isTail d then
        (.scalar (Char.ofNat
          (lead.toNat % 8 * 262144 + payload b * 4096 + payload c * 64 + payload d)), rest)
      else (.invalid lead, tail)
    | _ => (.invalid lead, tail)
  else (.invalid lead, tail)

theorem uncons_rest_length (lead : UInt8) (tail : Bytes) :
    (uncons lead tail).2.length ≤ tail.length := by
  unfold uncons
  repeat' split
  all_goals simp only [List.length_cons]
  all_goals omega

def pieces : Bytes → List Piece
  | [] => []
  | lead :: tail => (uncons lead tail).1 :: pieces (uncons lead tail).2
termination_by bytes => bytes.length
decreasing_by
  have shorter := uncons_rest_length lead tail
  simp only [List.length_cons]
  omega

/-- Length in characters, a stray byte counting as one. -/
def count (bytes : Bytes) : Nat := (pieces bytes).length

/-- The longest run of leading pieces that `accept` holds of, and the rest. -/
def span (accept : Char → Bool) : Bytes → Bytes × Bytes
  | [] => ([], [])
  | lead :: tail =>
    let first := uncons lead tail
    if accept first.1.char then
      let run := span accept first.2
      (first.1.bytes ++ run.1, run.2)
    else ([], lead :: tail)
termination_by bytes => bytes.length
decreasing_by
  have shorter := uncons_rest_length lead tail
  simp only [List.length_cons]
  omega

def wellFormed (bytes : Bytes) : Bool :=
  (pieces bytes).all fun piece => match piece with
    | .scalar _ => true
    | .invalid _ => false

/-- The text of `bytes`, with the replacement character for each stray byte. -/
def text (bytes : Bytes) : String := String.ofList ((pieces bytes).map Piece.char)

end Utf8
end Tide
