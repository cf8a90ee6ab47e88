import Tide.Proofs.Token.Boundary
import Tide.Proofs.Tree.Words

/-!
# Text cut into words

`Cuts bytes words` says that, wherever the bytes stand, they scan without a fault and without a
warning to tokens that spell the words. Text is put together from the right: there is one lemma for
each thing that can stand in front of text that is cut already, and `Writes` is a piece of text that
can stand in front of anything that ends it.
-/
namespace Tide

/-- The tokens are these words. The two tokens of a long operator may be together already. -/
inductive Spells : List Token → List Word → Prop where
  | nil : Spells [] []
  | word {t : Token} {tokens : List Token} {w : Word} {words : List Word} (kind : t.kind = w.kind)
      (lexeme : t.lexeme = w.lexeme) (rest : Spells tokens words) :
      Spells (t :: tokens) (w :: words)
  | pair {a b : Token} {tokens : List Token} {words : List Word} (operator : Fused)
      (first : a.kind = .symbol operator.parts.1) (second : b.kind = .symbol operator.parts.2)
      (touching : a.span.stop.offset = b.span.start.offset) (rest : Spells tokens words) :
      Spells (a :: b :: tokens) (.fixed (.fused operator) :: words)

def Cuts (bytes : Bytes) (words : List Word) : Prop :=
  ∀ p, ∃ tokens, Scan.run ⟨p, bytes⟩ = ⟨tokens, [], none⟩ ∧ Spells tokens words

namespace Scan

/-- The whole of the bytes is one token. -/
def Lone (bytes : Bytes) (w : Word) : Prop :=
  ∃ t c, next ⟨.first, bytes⟩ = .token t [] c ∧ c.rest = [] ∧ t.kind = w.kind ∧
    t.lexeme = w.lexeme

/-- Begins with a delimiter that is no point, if with anything. -/
structure Ended (bytes : Bytes) : Prop where
  bounded : Bounded bytes
  noPoint : '.'.toUInt8 ∉ bytes.head?

theorem ended_cons {b : UInt8} (delimiter : delimits b = true) (noPoint : b ≠ '.'.toUInt8)
    (rest : Bytes) : Ended (b :: rest) where
  bounded := by
    intro c first
    simp only [List.head?_cons, Option.mem_some_iff] at first
    exact first ▸ delimiter
  noPoint := by simpa using noPoint

/-- The blanks and the symbols that end a token: a point goes on with a number, and a star with the
beginning of a comment. -/
def closers : Bytes :=
  utf8 " \t\r\n" ++ (Symbol.all.filter fun s => s ≠ .dot && s ≠ .star).map Symbol.byte

theorem delimits_of_mem_closers {b : UInt8} (closer : b ∈ closers) :
    delimits b = true ∧ b ≠ '.'.toUInt8 := by
  have each : ∀ b ∈ closers, delimits b = true ∧ b ≠ '.'.toUInt8 := by decide +kernel
  exact each b closer

theorem ended_closer {b : UInt8} (closer : b ∈ closers) (rest : Bytes) : Ended (b :: rest) :=
  let ⟨delimiter, noPoint⟩ := delimits_of_mem_closers closer
  ended_cons delimiter noPoint rest

/-- Begins like something that ends a token; for text that is known. -/
def endsToken (bytes : Bytes) : Bool := bytes.head?.any (· ∈ closers)

theorem ended_append {bytes : Bytes} (ends : endsToken bytes = true) (rest : Bytes) :
    Ended (bytes ++ rest) := by
  cases bytes with
  | nil => simp [endsToken] at ends
  | cons b bytes =>
    simp only [endsToken, List.head?_cons, Option.any_some, decide_eq_true_eq] at ends
    exact ended_closer ends (bytes ++ rest)

end Scan

open Scan

theorem render_symbol (s : Symbol) : Kind.render (.symbol s) = [s.byte] := by
  cases s <;> decide

/-- The symbols in a text of blanks and symbols; for text that is known. -/
def Word.marks : Bytes → Option (List Word)
  | [] => some []
  | b :: rest =>
    if isSpace b then Word.marks rest
    else (Symbol.ofByte? b).bind fun s =>
      if s = .slash then none else (Word.marks rest).map (Word.mark s :: ·)

namespace Cuts

variable {rest : Bytes} {words : List Word}

theorem nil : Cuts [] [.last] := by
  intro p
  exact ⟨_, run_finished (next_nil p), .word rfl rfl .nil⟩

theorem space {b : UInt8} (space : isSpace b = true) (cut : Cuts rest words) :
    Cuts (b :: rest) words := by
  intro p
  have skipped : next ⟨p, b :: rest⟩ = next ⟨p.next b, rest⟩ := by
    rw [next, next, skipTrivia_space space]
  rw [run_congr skipped]
  exact cut _

theorem blanks (n : Nat) (cut : Cuts rest words) :
    Cuts (List.replicate n ' '.toUInt8 ++ rest) words := by
  induction n with
  | zero => exact cut
  | succ n ih => exact ih.space (by decide)

theorem mark (s : Symbol) (noComment : s = .slash → '*'.toUInt8 ∉ rest.head?)
    (cut : Cuts rest words) : Cuts (s.byte :: rest) (.mark s :: words) := by
  intro p
  obtain ⟨tokens, scanned, spelled⟩ := cut (p.next s.byte)
  rw [run_token (next_symbol s rest noComment p), scanned]
  exact ⟨_, rfl, .word rfl (render_symbol s).symm spelled⟩

theorem pair (operator : Fused) (cut : Cuts rest words) :
    Cuts (utf8 operator.name ++ rest) (.fixed (.fused operator) :: words) := by
  have spelling : utf8 operator.name = [operator.parts.1.byte, operator.parts.2.byte] := by
    cases operator <;> decide
  have noSlash : operator.parts.1 ≠ .slash ∧ operator.parts.2 ≠ .slash := by
    cases operator <;> decide
  intro p
  obtain ⟨tokens, scanned, spelled⟩ :=
    cut ((p.next operator.parts.1.byte).next operator.parts.2.byte)
  rw [spelling, List.cons_append, List.singleton_append,
    run_token (next_symbol _ _ (fun slash => absurd slash noSlash.1) p),
    run_token (next_symbol _ _ (fun slash => absurd slash noSlash.2) _), scanned]
  exact ⟨_, rfl, .pair operator rfl rfl rfl spelled⟩

theorem marks (bytes : Bytes) (found : List Word) (known : Word.marks bytes = some found)
    (cut : Cuts rest words) : Cuts (bytes ++ rest) (found ++ words) := by
  induction bytes generalizing found with
  | nil =>
    obtain rfl : [] = found := by simpa [Word.marks] using known
    exact cut
  | cons b bytes ih =>
    rw [Word.marks] at known
    split at known
    next blank => exact (ih found known).space blank
    next =>
      obtain ⟨s, symbol, known⟩ := Option.bind_eq_some_iff.mp known
      split at known
      · simp at known
      next noSlash =>
        obtain ⟨later, behind, rfl⟩ := Option.map_eq_some_iff.mp known
        obtain rfl : s.byte = b := by simpa using List.find?_some symbol
        exact (ih later behind).mark s fun slash => absurd slash noSlash

/-- A token in front of text that ends it. A number takes up a point, so for a number there must
be none. -/
theorem lone {bytes : Bytes} {w : Word} (alone : Lone bytes w) (bounded : Bounded rest)
    (noPoint : w.kind.isNumeric = true → '.'.toUInt8 ∉ rest.head?) (cut : Cuts rest words) :
    Cuts (bytes ++ rest) (w :: words) := by
  intro p
  obtain ⟨t, c, read, nothing, kind, lexeme⟩ := alone
  have moved : p.offset = Position.first.offset + (p.offset - Position.first.offset) := by omega
  have unjoined : t.kind.isNumeric = true → c.rest = [] → '.'.toUInt8 ∉ rest.head? :=
    fun numeric _ => noPoint (kind ▸ numeric)
  obtain ⟨u, again, r, step, same, warnings, -⟩ := next_append bounded read unjoined moved
  obtain rfl : again = [] := List.eq_nil_of_length_eq_zero warnings
  rw [nothing, List.nil_append] at step
  obtain ⟨tokens, scanned, spelled⟩ := cut r
  rw [run_token step, scanned]
  exact ⟨_, rfl, .word (same.kind.trans kind) (same.lexeme.trans lexeme) spelled⟩

end Cuts

/-- These bytes are these words in front of anything that ends them. -/
def Writes (bytes : Bytes) (words : List Word) : Prop :=
  ∀ ⦃rest more⦄, Ended rest → Cuts rest more → Cuts (bytes ++ rest) (words ++ more)

namespace Writes

theorem nil : Writes [] [] := fun _ _ _ cut => cut

theorem lone {bytes : Bytes} {w : Word} (alone : Lone bytes w) : Writes bytes [w] :=
  fun _ _ ended cut => cut.lone alone ended.bounded (fun _ => ended.noPoint)

/-- Parts with a separator between them. -/
theorem join {parts : List Bytes} {words : List (List Word)} (each : parts.Forall₂ Writes words)
    {separator : Bytes} {between : List Word} (ended : ∀ rest, Ended (separator ++ rest))
    (cuts : ∀ {rest more}, Cuts rest more → Cuts (separator ++ rest) (between ++ more)) :
    Writes (Bytes.join separator parts) (List.intercalate between words) := by
  induction each with
  | nil => exact nil
  | @cons part ws parts wss first others ih =>
    cases others with
    | nil => simpa [Bytes.join, List.intercalate] using first
    | @cons next ws' parts wss second others =>
      intro rest more tail cut
      have later := cuts (ih tail cut)
      have whole := first (ended _) later
      simpa [Bytes.join, List.intercalate] using whole

end Writes
end Tide
