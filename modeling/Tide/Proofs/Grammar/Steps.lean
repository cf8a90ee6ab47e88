import Tide.Grammar.Program

/-!
# What a successful parser has done

For each primitive of the parser monad, when it succeeds and with what. The statements are
equivalences, so the same lemma takes a finished parse apart and puts one together, and no later
proof opens the monad.
-/
namespace Tide

/-- The stream behind the separators at its front. -/
def Stream.skip (s : Stream) : Stream := skipWhile (· = .symbol .semicolon) s.rest s.behind

namespace Parser

variable {α β : Type} {s t : Stream}

theorem bind_eq (p : Parser α) (f : α → Parser β) (s : Stream) :
    (p >>= f) s = p s >>= fun found => f found.1 found.2 := rfl

@[simp]
theorem bind_ok_iff {p : Parser α} {f : α → Parser β} {result : β × Stream} :
    (p >>= f) s = .ok result ↔ ∃ a t, p s = .ok (a, t) ∧ f a t = .ok result := by
  rw [bind_eq]
  cases h : p s with
  | error halt => simp [bind, Except.bind]
  | ok found => simp [bind, Except.bind, Prod.ext_iff, and_assoc]

@[simp]
theorem pure_ok_iff {a : α} {result : α × Stream} :
    (pure a : Parser α) s = .ok result ↔ (a, s) = result := by
  change Except.ok (a, s) = _ ↔ _
  rw [Except.ok.injEq]

@[simp]
theorem fail_ok_iff {cause : SyntaxFault} {span : Span} {result : α × Stream} :
    (fail cause span : Parser α) s = .ok result ↔ False := by
  simp [fail]

@[simp]
theorem exhausted_ok_iff {result : α × Stream} :
    (exhausted : Parser α) s = .ok result ↔ False := by
  simp [exhausted]

@[simp]
theorem peek_ok_iff {token : Token} : peek s = .ok (token, t) ↔ s.head = token ∧ s = t := by
  simp [peek]

@[simp]
theorem peekSecond_ok_iff {token : Token} :
    peekSecond s = .ok (token, t) ↔ s.second = token ∧ s = t := by
  simp [peekSecond]

@[simp]
theorem peekKind_ok_iff {kind : Kind} :
    peekKind s = .ok (kind, t) ↔ s.head.kind = kind ∧ s = t := by
  simp [peekKind]

@[simp]
theorem advance_ok_iff {token : Token} :
    advance s = .ok (token, t) ↔ s.head = token ∧ s.tail = t := by
  simp [advance]

@[simp]
theorem at_ok_iff {kind : Kind} {found : Bool} :
    at_ kind s = .ok (found, t) ↔ decide (s.head.kind = kind) = found ∧ s = t := by
  simp [at_]

@[simp]
theorem atSymbol_ok_iff {symbol : Symbol} {found : Bool} :
    atSymbol symbol s = .ok (found, t) ↔
      decide (s.head.kind = .symbol symbol) = found ∧ s = t := by
  simp [atSymbol]

@[simp]
theorem fuse_ok_iff {wanted : List Fused} {found : Unit} :
    fuse wanted s = .ok (found, t) ↔ s.fuse wanted = t := by
  simp [fuse]

@[simp]
theorem expect_ok_iff {kind : Kind} {token : Token} :
    expect kind s = .ok (token, t) ↔ s.head.kind = kind ∧ s.head = token ∧ s.tail = t := by
  by_cases same : s.head.kind = kind <;> simp [expect, same]

@[simp]
theorem expectSymbol_ok_iff {symbol : Symbol} {token : Token} :
    expectSymbol symbol s = .ok (token, t) ↔
      s.head.kind = .symbol symbol ∧ s.head = token ∧ s.tail = t := by
  simp [expectSymbol]

@[simp]
theorem skipSeparators_ok_iff {found : Unit} :
    skipSeparators s = .ok (found, t) ↔ s.skip = t := by
  simp [skipSeparators, Stream.skip]

@[simp]
theorem spanFrom_ok_iff {start : Position} {span : Span} :
    spanFrom start s = .ok (span, t) ↔ ⟨start, s.behind⟩ = span ∧ s = t := by
  simp [spanFrom]

end Parser

@[simp]
theorem Grammar.number_ok_iff {text : Bytes} {span : Span} {s t : Stream} {node : Node} :
    number text span s = .ok (node, t) ↔
      ∃ value, Number.read? text = some value ∧ .number span value text.length = node ∧ s = t := by
  cases reading : Number.read? text <;> simp [number, reading]

end Tide
