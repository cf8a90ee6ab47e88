import Tide.Proofs.Grammar.Trees
import Tide.Proofs.Number.Text

/-!
# The vocabulary of a source

What is known of the names and numbers in the tree of a program that was read from a source, rather
than from tokens that somebody made up: every name scans to itself, and every number is finite.
-/
namespace Tide

open Scan

/-- What a scanner says about its tokens. -/
structure Token.Scanned (t : Token) : Prop where
  name : t.kind = .ident → Lone t.lexeme (.ident t.lexeme)
  number : t.kind.isNumeric = true →
    ∃ b run, t.lexeme = b :: run ∧ isDigit b = true ∧ run.all isRun = true
  sign : t.kind = .symbol .minus ∨ t.kind = .symbol .plus → t.lexeme ∈ Numeric.signs

namespace Scan

theorem scanned_of_readNumber {p : Position} {b : UInt8} {rest : Bytes} {t : Token}
    {warnings : List Diagnostic} {c : Cursor} (digit : isDigit b = true)
    (read : readNumber p (b :: rest) = .token t warnings c) : t.Scanned := by
  simp only [readNumber, Step.token.injEq] at read
  obtain ⟨rfl, -, -⟩ := read
  have first : (b :: rest).takeWhile (fun b => isDigit b || decide (b = '.'.toUInt8)) =
      b :: rest.takeWhile fun b => isDigit b || decide (b = '.'.toUInt8) := by
    rw [List.takeWhile_cons_of_pos]
    simp [digit]
  refine ⟨?_, fun _ => ⟨b, _, first, digit, ?_⟩, ?_⟩
  · simp only
    split <;> simp
  · rw [List.all_eq_true]
    intro c member
    exact List.mem_takeWhile_imp member
  · simp only
    split <;> simp

theorem scanned_of_symbol (symbol : Symbol) (span : Span) :
    Token.Scanned ⟨.symbol symbol, [symbol.byte], span⟩ := by
  refine ⟨by simp, by simp [Kind.isNumeric], ?_⟩
  rintro (minus | plus)
  · obtain rfl : symbol = .minus := by simpa using minus
    simp [Numeric.signs, Symbol.byte, Symbol.char]
  · obtain rfl : symbol = .plus := by simpa using plus
    simp [Numeric.signs, Symbol.byte, Symbol.char]

theorem scanned_of_readWord {p : Position} {lead : UInt8} {tail : Bytes} {t : Token}
    {warnings : List Diagnostic} {c : Cursor} (noQuote : isQuote lead = false)
    (noDigit : isDigit lead = false)
    (start : isNameStart (Utf8.uncons lead tail).1.char = true)
    (read : readWord p (lead :: tail) = .token t warnings c) : t.Scanned := by
  have alone := lone_of_readWord noQuote noDigit start read
  simp only [readWord, Step.token.injEq] at read
  obtain ⟨rfl, -, -⟩ := read
  simp only at alone ⊢
  -- Nothing is asked of a keyword.
  obtain name | ⟨k, keyword⟩ := ofWord_cases (Utf8.span isNamePart (lead :: tail)).1
  · rw [name] at alone ⊢
    exact ⟨fun _ => alone, by simp [Kind.isNumeric], by simp⟩
  · rw [keyword]
    exact ⟨by simp, by simp [Kind.isNumeric], by simp⟩

theorem scanned_of_next {cursor c : Cursor} {t : Token} {warnings : List Diagnostic}
    (read : next cursor = .token t warnings c) : t.Scanned := by
  unfold next at read
  split at read
  next => simp at read
  next cursor _ =>
    obtain ⟨p, source⟩ := cursor
    cases reading_of_readToken read with
    | quoted => exact ⟨by simp, by simp [Kind.isNumeric], by simp⟩
    | number b rest t warnings c _ digit _ read => exact scanned_of_readNumber digit read
    | word lead tail t warnings c noQuote noDigit start _ read =>
      exact scanned_of_readWord noQuote noDigit start read
    | symbol symbol rest => exact scanned_of_symbol symbol _

theorem scanned_of_run (cursor : Cursor) : ∀ t ∈ (run cursor).tokens, t.Scanned := by
  induction cursor using run.induct with
  | case1 cursor last read =>
    rw [run_finished read]
    intro t member
    obtain rfl : t = last := by simpa using member
    have kind := kind_of_finished read
    exact ⟨by simp [kind], by simp [kind, Kind.isNumeric], by simp [kind]⟩
  | case2 cursor fault warnings read => simp [run_failed read]
  | case3 cursor t warnings c read ih =>
    rw [run_token read]
    exact List.forall_mem_cons.mpr ⟨scanned_of_next read, ih⟩

end Scan

namespace Grammar

/-- The vocabulary of scanned tokens. -/
def Vocabulary.scanned : Vocabulary where
  token := Token.Scanned
  name name := Lone name (.ident name)
  number := Number.Finite
  missingEnd := ⟨by simp [Token.missingEnd], by simp [Token.missingEnd, Kind.isNumeric],
    by simp [Token.missingEnd]⟩
  fused := ⟨by simp, by simp [Kind.isNumeric], by simp⟩
  name_of_token scanned kind := scanned.name kind
  number_of_token := by
    intro t value scanned numeric read
    obtain ⟨b, run, lexeme, digit, inRun⟩ := scanned.number numeric
    rw [lexeme] at read
    exact @Numeric.finite_of_read? [] (by simp [Numeric.signs]) b run digit inRun value read
  number_of_signed := by
    intro sign t value signed scanned kind numeric read
    obtain ⟨b, run, lexeme, digit, inRun⟩ := scanned.number numeric
    rw [lexeme] at read
    exact Numeric.finite_of_read? (signed.sign kind) digit inRun read

/-- The tree of a source, and what its names and numbers are like. -/
theorem grammatical_of_scan {source : Bytes} {node : Node}
    (parsed : Program.parse (scan source).tokens = .ok node) :
    ∃ span statements, node = .program span statements ∧
      ∀ statement ∈ statements, Grammatical .scanned (.statement false) statement :=
  grammatical_of_parse parsed (scanned_of_run _)

end Grammar
end Tide
