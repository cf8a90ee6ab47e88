import Tide.Proofs.Eval.Sources
import Tide.Proofs.Grammar.Completeness
import Tide.Proofs.Grammar.Transport

/-!
# Programs one behind the other

Sources that parse by themselves can be joined into one. Between two of them stands a separator on a
line of its own. The joined source parses, and its statements are those of the pieces in order.

## Proof strategy

The scanner gives the tokens of each piece again, with a separator between them. Everything that was
read in front of the end of a piece is read in front of the separator too, and where the statements
of a piece ended at the end of its source, they now go on with those of the next.
-/
namespace Tide

open Grammar

namespace Grammar

variable {shift : Int} {last next : Token} {later : List Token} {s u t : Stream}

/-- Statements begin with the first token that is no separator. -/
theorem Reads.of_skip_eq {nested : Bool} {place : Place} {nodes : List Node}
    (read : Reads (.statements nested place) s nodes t) (same : u.skip = s.skip) :
    Reads (.statements nested place) u nodes t := by
  cases read with
  | noStatements stop =>
    rw [← same] at stop ⊢
    exact .noStatements stop
  | statements going head tail =>
    rw [← same] at going head
    exact .statements going head tail

/-- Where only separators are left of a piece, what follows it comes next. -/
theorem Beside.skip_of_end (beside : Beside shift last next later s u)
    (atEnd : s.skip.head.kind = .eof) :
    ∃ behind, u.skip = Stream.skip ⟨next :: later, behind⟩ := by
  obtain ⟨tokens, again, left, right, pairs⟩ := beside
  obtain ⟨rest, behind⟩ := s
  obtain ⟨rest', behind'⟩ := u
  obtain rfl : rest = tokens ++ [last] := left
  obtain rfl : rest' = again ++ next :: later := right
  simp only [Stream.skip] at atEnd ⊢
  -- On the tokens that are left. All of them are skipped: skipping stops at any other token, and
  -- then it has not come to the end.
  induction pairs generalizing behind behind' with
  | nil => exact ⟨behind', rfl⟩
  | @cons t t' tokens again same pairs ih =>
    simp only [List.cons_append, Stream.skipWhile, same.kind] at atEnd ⊢
    split
    next separator =>
      rw [if_pos separator] at atEnd
      exact ih _ _ atEnd
    next noSeparator =>
      rw [if_neg noSeparator] at atEnd
      exact absurd atEnd same.inside

/-- The statements of a piece, followed by whatever comes behind it. -/
theorem Reads.statements_beside {place : Place} {nodes : List Node}
    (read : Reads (.statements false place) s nodes t) (ended : last.kind = .eof)
    (follow : next.kind = .eof ∨ next.kind = .symbol .semicolon)
    (beside : Beside shift last next later s u) :
    ∃ again behind, again.map Node.unplaced = nodes.map Node.unplaced ∧
      ∀ more v, Reads (.statements false place) ⟨next :: later, behind⟩ more v →
        Reads (.statements false place) u (again ++ more) v := by
  -- On the statements. Each is read in the same way in front of more text, and behind the last one
  -- only separators are left.
  induction nodes generalizing s u with
  | nil =>
    cases read with
    | noStatements stop =>
      obtain ⟨behind, skipped⟩ := beside.skip_of_end (by simpa [stops] using stop)
      exact ⟨[], behind, rfl, fun more v follows => follows.of_skip_eq skipped⟩
  | cons first rest ih =>
    cases read with
    | statements going head tail =>
      have inside : s.skip.head.kind ≠ .eof := by simpa [stops] using going
      have one := beside.skip ended inside
      obtain ⟨kind, -, -⟩ := one.step ended inside
      obtain ⟨first', v, readFirst, two, sameFirst⟩ := head.beside ended follow one rfl trivial
      obtain ⟨rest', behind, sameRest, continues⟩ := ih tail two
      refine ⟨first' :: rest', behind, ?_, fun more w follows => ?_⟩
      · have sameHead : first'.unplaced = first.unplaced := sameFirst
        rw [List.map_cons, List.map_cons, sameRest, sameHead]
      · exact .statements (by rw [kind]; exact going) readFirst (continues more w follows)

end Grammar

/-! ### Joined sources -/

/-- Sources on lines of their own, with a separator between two. -/
def joinSources (sources : List Bytes) : Bytes := Bytes.join (utf8 "\n;\n") sources

theorem joinSources_cons (source : Bytes) {rest : List Bytes} (more : rest ≠ []) :
    joinSources (source :: rest) =
      source ++ '\n'.toUInt8 :: ';'.toUInt8 :: '\n'.toUInt8 :: joinSources rest := by
  obtain ⟨next, others, rfl⟩ := List.exists_cons_of_ne_nil more
  have separator : utf8 "\n;\n" = ['\n'.toUInt8, ';'.toUInt8, '\n'.toUInt8] := rfl
  simp [joinSources, Bytes.join, separator, List.intercalate, List.intersperse]

namespace Scan

theorem run_newline (p : Position) (rest : Bytes) :
    run ⟨p, '\n'.toUInt8 :: rest⟩ = run ⟨p.next '\n'.toUInt8, rest⟩ := by
  refine run_congr ?_
  simp only [next]
  rw [skipTrivia_space (by decide)]

/-- A line that holds a separator only. -/
theorem run_separator (p : Position) (rest : Bytes) :
    ∃ t q, t.kind = .symbol .semicolon ∧
      (run ⟨p, '\n'.toUInt8 :: ';'.toUInt8 :: '\n'.toUInt8 :: rest⟩).tokens =
        t :: (run ⟨q, rest⟩).tokens ∧
      (run ⟨p, '\n'.toUInt8 :: ';'.toUInt8 :: '\n'.toUInt8 :: rest⟩).fault =
        (run ⟨q, rest⟩).fault := by
  rw [run_newline]
  have read := next_symbol .semicolon ('\n'.toUInt8 :: rest) nofun (p.next '\n'.toUInt8)
  change next ⟨_, ';'.toUInt8 :: _⟩ = _ at read
  rw [run_token read, run_newline]
  exact ⟨_, _, rfl, rfl, rfl⟩

theorem run_nil (p : Position) : run ⟨p, []⟩ = ⟨[⟨.eof, [], ⟨p, p⟩⟩], [], none⟩ :=
  run_finished rfl

end Scan

/-- The source is a program with these statements. -/
def ParsesTo (source : Bytes) (body : List Node) : Prop :=
  ∃ span, (read source).program = .ok (.program span body)

theorem parsesTo_iff {source : Bytes} {body : List Node} :
    ParsesTo source body ↔ (scan source).fault = none ∧
      ∃ t, Reads (.statements false .outside) (Stream.ofTokens (scan source).tokens) body t := by
  constructor
  · rintro ⟨span, parsed⟩
    obtain ⟨scans, parsed⟩ := read_ok_iff.mp parsed
    obtain ⟨statements, t, read, same⟩ := parse_ok_iff.mp parsed
    obtain ⟨-, rfl⟩ := Node.program.inj same
    exact ⟨scans, t, read⟩
  · rintro ⟨scans, t, read⟩
    exact ⟨_, read_ok_iff.mpr ⟨scans, parse_ok_iff.mpr ⟨body, t, read, rfl⟩⟩⟩

/-- Wherever the source begins, it scans and reads to these statements, up to their places. -/
def ReadsTo (source : Bytes) (body : List Node) : Prop :=
  ∀ p, (Scan.run ⟨p, source⟩).fault = none ∧
    ∀ s, s.rest = (Scan.run ⟨p, source⟩).tokens →
      ∃ found t, Reads (.statements false .outside) s found t ∧
        found.map Node.unplaced = body.map Node.unplaced

/-- What may stand behind a piece: its own first token is a separator or the end. -/
structure Continues (more : Bytes) (body : List Node) : Prop where
  bounded : Scan.Bounded more
  noPoint : '.'.toUInt8 ∉ more.head?
  opens : ∀ p, ∃ next later, (Scan.run ⟨p, more⟩).tokens = next :: later ∧
    (next.kind = .eof ∨ next.kind = .symbol .semicolon)
  reads : ReadsTo more body

theorem continues_nil : Continues [] [] where
  bounded := by simp [Scan.Bounded]
  noPoint := by simp
  opens p := by
    rw [Scan.run_nil]
    exact ⟨_, [], rfl, .inl rfl⟩
  reads p := by
    rw [Scan.run_nil]
    refine ⟨rfl, fun s tokens => ⟨[], _, .noStatements ?_, rfl⟩⟩
    obtain ⟨rest, behind⟩ := s
    obtain rfl : rest = _ := tokens
    rfl

theorem ReadsTo.continues {source : Bytes} {body : List Node} (reads : ReadsTo source body) :
    Continues ('\n'.toUInt8 :: ';'.toUInt8 :: '\n'.toUInt8 :: source) body where
  bounded := by
    simp only [Scan.Bounded, List.head?_cons, Option.mem_some_iff, forall_eq']
    decide +kernel
  noPoint := by
    rw [List.head?_cons]
    decide
  opens p := by
    obtain ⟨t, r, kind, tokens, -⟩ := Scan.run_separator p source
    exact ⟨t, _, tokens, .inr kind⟩
  reads p := by
    obtain ⟨t, r, kind, tokens, fault⟩ := Scan.run_separator p source
    obtain ⟨noFault, reads⟩ := reads r
    refine ⟨fault.trans noFault, fun s rest => ?_⟩
    obtain ⟨found, v, read, same⟩ := reads ⟨_, t.span.stop⟩ rfl
    refine ⟨found, v, read.of_skip_eq ?_, same⟩
    simp [Stream.skip, Stream.skipWhile, rest, tokens, kind]

/-- A piece and what stands behind it. -/
theorem Continues.append {source more : Bytes} {body rest : List Node} {t : Stream}
    (continues : Continues more rest) (scans : (scan source).fault = none)
    (read : Reads (.statements false .outside) (Stream.ofTokens (scan source).tokens) body t) :
    ReadsTo (source ++ more) (body ++ rest) := by
  intro p
  have moved : p.offset = Position.first.offset + p.offset := by simp [Position.first]
  obtain ⟨tokens, last, again, r, alone, ended, pairs, together, fault⟩ :=
    Scan.run_append continues.bounded continues.noPoint scans moved
  obtain ⟨next, later, opens, follow⟩ := continues.opens r
  obtain ⟨noFault, reads⟩ := continues.reads r
  refine ⟨fault.trans noFault, fun s tokens => ?_⟩
  have beside : Beside p.offset last next later (Stream.ofTokens (scan source).tokens) s :=
    ⟨_, _, alone, by rw [tokens, together, opens], pairs⟩
  obtain ⟨found, behind, same, follows⟩ := read.statements_beside ended follow beside
  obtain ⟨others, v, readRest, sameRest⟩ := reads ⟨next :: later, behind⟩ opens.symm
  refine ⟨found ++ others, v, follows _ _ readRest, ?_⟩
  rw [List.map_append, List.map_append, same, sameRest]

/-- Joined sources read to the statements of all of them. -/
theorem readsTo_joined {sources : List Bytes} {bodies : List (List Node)}
    (each : sources.Forall₂ ParsesTo bodies) : ReadsTo (joinSources sources) bodies.flatten := by
  -- On the sources, from the last one to the first: what stands behind a source is joined already.
  induction each with
  | nil => exact continues_nil.reads
  | @cons source body rest bodies first others ih =>
    obtain ⟨scans, t, read⟩ := parsesTo_iff.mp first
    rw [List.flatten_cons]
    cases rest with
    | nil =>
      cases others
      have alone : joinSources [source] = source ++ [] := by simp [joinSources, Bytes.join]
      rw [alone]
      exact continues_nil.append scans read
    | cons second rest =>
      rw [joinSources_cons source (by simp)]
      exact ih.continues.append scans read

/-- Joined sources parse, to the concatenation of what the pieces parse to. -/
theorem parsesTo_joined {sources : List Bytes} {bodies : List (List Node)}
    (each : sources.Forall₂ ParsesTo bodies) :
    ∃ body, ParsesTo (joinSources sources) body ∧
      body.map Node.unplaced = bodies.flatten.map Node.unplaced := by
  obtain ⟨noFault, reads⟩ := readsTo_joined each .first
  obtain ⟨body, t, found, same⟩ := reads (Stream.ofTokens (scan (joinSources sources)).tokens) rfl
  exact ⟨body, parsesTo_iff.mpr ⟨noFault, t, found⟩, same⟩

end Tide
