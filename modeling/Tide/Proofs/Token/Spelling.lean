import Mathlib.Data.List.TakeWhile
import Tide.Proofs.Token.Cuts
import Tide.Proofs.Token.Literals

/-!
# How each kind of word is written

Keywords, names, strings and numbers scan alone to the one token that they are. For keywords this is
a matter of looking; a name that was scanned once is scanned again; a string literal is undone by
the scanner byte for byte; and a run of digits and points is taken whole.
-/
namespace Tide

namespace Scan

/-! ### Words -/

theorem span_span {accept : Char → Bool} (noStray : accept '\uFFFD' = false) (bytes : Bytes) :
    Utf8.span accept (Utf8.span accept bytes).1 = ((Utf8.span accept bytes).1, []) := by
  fun_induction Utf8.span accept bytes with
  | case1 => simp [Utf8.span]
  | case2 lead tail first accepted run ih =>
    rcases Utf8.uncons_cases lead tail with stray | ⟨c, taken, rest, rfl, -, encoded, same⟩
    · simp only [first, stray, Piece.char] at accepted
      simp [noStray] at accepted
    · have piece : first = (.scalar c, rest) := same rest
      simp only [piece] at accepted ih
      simp only [run, piece, Piece.bytes, encoded, List.cons_append]
      rw [Utf8.span, same]
      simp only [accepted, if_true, ih, Piece.bytes, encoded, List.cons_append]
  | case3 => simp [Utf8.span]

/-- A name begins with nothing that the scanner would skip. -/
theorem skipTrivia_start {lead : UInt8} {tail : Bytes}
    (start : isNameStart (Utf8.uncons lead tail).1.char = true) (p : Position) :
    skipTrivia none p (lead :: tail) = .ok ⟨p, lead :: tail⟩ := by
  have each : ∀ b ∈ utf8 " \t\r\n/", b < 0x80 ∧ isNameStart (Char.ofNat b.toNat) = false := by
    decide +kernel
  have other {b : UInt8} (skipped : b ∈ utf8 " \t\r\n/") : lead ≠ b := by
    rintro rfl
    obtain ⟨ascii, noStart⟩ := each lead skipped
    rw [Utf8.uncons_ascii ascii] at start
    simp [Piece.char, noStart] at start
  have noSpace : isSpace lead = false := by
    have blank : lead ≠ ' '.toUInt8 := other (by decide)
    have tab : lead ≠ '\t'.toUInt8 := other (by decide)
    have ret : lead ≠ '\r'.toUInt8 := other (by decide)
    have feed : lead ≠ '\n'.toUInt8 := other (by decide)
    simp [isSpace, blank, tab, ret, feed]
  have noSlash : lead ≠ '/'.toUInt8 := other (by decide)
  exact skipTrivia_stop noSpace (fun slash => absurd slash noSlash) p

theorem lone_word {lead : UInt8} {tail : Bytes} (noQuote : isQuote lead = false)
    (noDigit : isDigit lead = false)
    (start : isNameStart (Utf8.uncons lead tail).1.char = true)
    (whole : Utf8.span isNamePart (lead :: tail) = (lead :: tail, [])) :
    Lone (lead :: tail) ⟨Kind.ofWord (lead :: tail), lead :: tail⟩ := by
  have read : next ⟨.first, lead :: tail⟩ = readWord .first (lead :: tail) := by
    rw [next, skipTrivia_start start]
    exact readToken_word noQuote noDigit start .first
  rw [readWord, whole] at read
  exact ⟨_, _, read, rfl, rfl, rfl⟩

/-- A byte that may stand anywhere in a name. -/
def isPlain (b : UInt8) : Bool :=
  b < 0x80 && !isQuote b && !isDigit b && isNameStart (Char.ofNat b.toNat)

theorem span_plain {bytes : Bytes} (plain : bytes.all isPlain = true) :
    Utf8.span isNamePart bytes = (bytes, []) := by
  induction bytes with
  | nil => simp [Utf8.span]
  | cons b bytes ih =>
    simp only [List.all_cons, isPlain, Bool.and_eq_true, decide_eq_true_eq] at plain
    obtain ⟨⟨⟨⟨ascii, -⟩, -⟩, start⟩, others⟩ := plain
    have part := isNamePart_of_isNameStart _ start
    rw [Utf8.span, Utf8.uncons_ascii ascii]
    simp [Piece.char, part, ih others, Piece.bytes, Utf8.encode_one ascii]

theorem lone_plain {lead : UInt8} {tail : Bytes} (plain : (lead :: tail).all isPlain = true) :
    Lone (lead :: tail) ⟨Kind.ofWord (lead :: tail), lead :: tail⟩ := by
  have first := plain
  simp only [List.all_cons, isPlain, Bool.and_eq_true, decide_eq_true_eq, Bool.not_eq_true']
    at first
  obtain ⟨⟨⟨⟨ascii, noQuote⟩, noDigit⟩, start⟩, -⟩ := first
  refine lone_word noQuote noDigit ?_ (span_plain plain)
  rw [Utf8.uncons_ascii ascii]
  exact start

theorem lone_key (k : Keyword) : Lone (utf8 k.name) (.key k) := by
  have known : k ∈ Keyword.all := by cases k <;> decide
  have each : ∀ k ∈ Keyword.all, (utf8 k.name).all isPlain = true := by decide +kernel
  have plain := each k known
  have kind : Kind.ofWord (utf8 k.name) = .keyword k := by
    cases k <;> decide
  have filled : utf8 k.name ≠ [] := by
    cases k <;> decide
  change Lone (utf8 k.name) ⟨.keyword k, utf8 k.name⟩
  obtain ⟨lead, tail, same⟩ := List.exists_cons_of_ne_nil filled
  rw [same] at plain kind ⊢
  have alone := lone_plain plain
  rwa [kind] at alone

theorem feed_notMem_word (bytes : Bytes) : '\n'.toUInt8 ∉ (Utf8.span isNamePart bytes).1 :=
  fun member =>
    absurd ((Utf8.span_bytes isNamePart bytes).2 _ member (by decide)) (by decide +kernel)

/-- A name that was read from a source can be read again. -/
theorem lone_of_readWord {p : Position} {lead : UInt8} {tail : Bytes} {t : Token}
    {warnings : List Diagnostic} {c : Cursor} (noQuote : isQuote lead = false)
    (noDigit : isDigit lead = false)
    (start : isNameStart (Utf8.uncons lead tail).1.char = true)
    (read : readWord p (lead :: tail) = .token t warnings c) : Lone t.lexeme ⟨t.kind, t.lexeme⟩ := by
  have noStray : isNameStart '\uFFFD' = false ∧ isNamePart '\uFFFD' = false := by decide +kernel
  simp only [readWord, Step.token.injEq] at read
  obtain ⟨rfl, -, -⟩ := read
  have again := span_span noStray.2 (lead :: tail)
  -- The first character is whole, as no name begins with a stray byte, so it is there in the name.
  rcases Utf8.uncons_cases lead tail with stray | ⟨c, taken, rest, rfl, -, encoded, same⟩
  · simp [stray, Piece.char, noStray.1] at start
  · rw [same rest] at start
    have part := isNamePart_of_isNameStart _ start
    have whole : (Utf8.span isNamePart (lead :: (taken ++ rest))).1 =
        lead :: (taken ++ (Utf8.span isNamePart rest).1) := by
      rw [Utf8.span, same]
      simp [part, Piece.bytes, encoded]
    simp only [whole] at again ⊢
    refine lone_word noQuote noDigit ?_ again
    rw [same]
    exact start

/-! ### Strings -/

theorem lone_text (value : Bytes) : Lone (Literal.encode value) (.text value) :=
  ⟨_, _, (denotes_encode value).token .first [], rfl, rfl, rfl⟩

/-! ### Numbers -/

def isRun (b : UInt8) : Bool := isDigit b || b = '.'.toUInt8

theorem isRun_of_isDigit {b : UInt8} (digit : isDigit b = true) : isRun b = true := by
  simp [isRun, digit]

theorem isRun_range {b : UInt8} (run : isRun b = true) :
    b.toNat = 46 ∨ 48 ≤ b.toNat ∧ b.toNat ≤ 57 := by
  simp only [isRun, isDigit, Bool.or_eq_true, Bool.and_eq_true, decide_eq_true_eq,
    UInt8.le_iff_toNat_le, ← UInt8.toNat_inj] at run
  exact run.symm

theorem ne_of_isRun {b c : UInt8} (run : isRun b = true)
    (outside : c.toNat < 46 ∨ c.toNat = 47 ∨ 57 < c.toNat) : b ≠ c := by
  have range := isRun_range run
  rintro rfl
  omega

theorem feed_notMem_run (bytes : Bytes) : '\n'.toUInt8 ∉ bytes.takeWhile isRun := fun member =>
  absurd (List.mem_takeWhile_imp member) (by decide)

theorem next_of_isDigit {b : UInt8} (digit : isDigit b = true) (p : Position) (rest : Bytes) :
    next ⟨p, b :: rest⟩ = readNumber p (b :: rest) := by
  have other {c : UInt8} : c.toNat < 46 ∨ c.toNat = 47 ∨ 57 < c.toNat → b ≠ c :=
    ne_of_isRun (isRun_of_isDigit digit)
  have noSpace : isSpace b = false := by
    simp [isSpace, other (c := ' '.toUInt8) (by decide), other (c := '\t'.toUInt8) (by decide),
      other (c := '\r'.toUInt8) (by decide), other (c := '\n'.toUInt8) (by decide)]
  have noSlash : b ≠ '/'.toUInt8 := other (by decide)
  have noQuote : isQuote b = false := by
    simp [isQuote, other (c := '"'.toUInt8) (by decide), other (c := '\''.toUInt8) (by decide)]
  rw [next, skipTrivia_stop noSpace (fun slash => absurd slash noSlash)]
  exact readToken_number noQuote digit p rest

theorem next_digits {b : UInt8} {run rest : Bytes} (digit : isDigit b = true)
    (inRun : run.all isRun = true) (stop : ∀ c ∈ rest.head?, isRun c = false) (p : Position) :
    ∃ t r, next ⟨p, b :: run ++ rest⟩ = .token t [] ⟨r, rest⟩ ∧
      t.kind = (Word.digits (b :: run)).kind ∧ t.lexeme = b :: run := by
  have all : ∀ c ∈ b :: run, isRun c = true :=
    List.forall_mem_cons.mpr ⟨isRun_of_isDigit digit, List.all_eq_true.mp inRun⟩
  -- What follows does not go on with the run.
  have whole : (b :: run ++ rest).takeWhile isRun = b :: run ∧
      (b :: run ++ rest).dropWhile isRun = rest := by
    rw [List.takeWhile_append_of_pos all, List.dropWhile_append_of_pos all]
    cases rest with
    | nil => simp
    | cons c rest => simp [stop c rfl]
  have number : readNumber p (b :: run ++ rest) =
      let lexeme := (b :: run ++ rest).takeWhile isRun
      let stop := p.forward lexeme.length lexeme.length
      .token ⟨(Word.digits lexeme).kind, lexeme, ⟨p, stop⟩⟩ []
        ⟨stop, (b :: run ++ rest).dropWhile isRun⟩ := rfl
  rw [whole.1, whole.2] at number
  exact ⟨_, _, (next_of_isDigit digit p _).trans number, rfl, rfl⟩

/-- A run of digits in front of something that does not go on with it. -/
theorem cuts_digits {b : UInt8} {run rest : Bytes} {words : List Word} (digit : isDigit b = true)
    (inRun : run.all isRun = true) (stop : ∀ c ∈ rest.head?, isRun c = false)
    (cut : Cuts rest words) : Cuts (b :: run ++ rest) (.digits (b :: run) :: words) := by
  intro p
  obtain ⟨t, r, read, kind, lexeme⟩ := next_digits digit inRun stop p
  obtain ⟨tokens, scanned, spelled⟩ := cut r
  rw [run_token read, scanned]
  exact ⟨_, rfl, .word kind lexeme spelled⟩

theorem not_isRun_of_ended {rest : Bytes} (ended : Ended rest) :
    ∀ c ∈ rest.head?, isRun c = false := by
  intro c first
  have noPoint : c ≠ '.'.toUInt8 := by
    rintro rfl
    exact ended.noPoint first
  simp [isRun, not_isDigit_of_delimits (ended.bounded c first), noPoint]

/-- No name begins like a number. -/
theorem not_isRun_of_name {name : Bytes} (alone : Lone name (.ident name)) (rest : Bytes) :
    ∀ c ∈ (name ++ rest).head?, isRun c = false := by
  obtain ⟨t, c, read, -, kind, -⟩ := alone
  cases name with
  | nil => simp [next_nil] at read
  | cons b name =>
    intro b' first
    obtain rfl : b = b' := by simpa using first
    rw [Bool.eq_false_iff]
    intro inRun
    rcases Bool.or_eq_true_iff.mp inRun with digit | point
    · rw [next_of_isDigit digit, readNumber] at read
      obtain ⟨rfl, -, -⟩ := read
      simp only [Word.ident] at kind
      split at kind <;> simp at kind
    · obtain rfl : b = Symbol.dot.byte := of_decide_eq_true point
      rw [next_symbol .dot name (by simp)] at read
      obtain ⟨rfl, -, -⟩ := read
      simp [Word.ident] at kind

end Scan
end Tide
