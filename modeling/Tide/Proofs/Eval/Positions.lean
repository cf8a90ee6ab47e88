import Mathlib
import Tide.Proofs.Eval.Places
import Tide.Proofs.Eval.Sources

/-!
# Where code stands does not matter

Two trees that differ only in their spans and in the widths of their numbers do the same. Evaluated
on machines that correspond, either both come to an end or neither does. They print the same, leave
machines behind that correspond again, and give values that correspond or fail for the same reason.

Machines correspond when the same scopes bind the same names, in whatever order, as constants or
not, to values that correspond. Values correspond when they differ only in the widths of numbers,
in the places and widths of the code they carry, and in the numbers under which their collections
and functions were made. Which of these numbers belong together is fixed by a pairing. It is one to
one, since the operator `is` tells a collection or a function from all others by its number: what is
one instance for the left tree must not be two for the right one.

## Proof strategy

Correspondence is a likeness, so the two runs agree to every depth. A run that has ended within one
depth ends in the same way within a larger one, so two runs can be compared that ended within
different depths.
-/
namespace Tide

/-- Which identities of one machine belong to which of another. `is` compares identities, and it has
to come out the same on both sides. So what is one instance on one side is one on the other, and
what are two are two: the pairs are one to one. -/
structure Pairing where
  pairs : Nat → Nat → Prop
  oneToOne {i j k l : Nat} (first : pairs i j) (second : pairs k l) : i = k ↔ j = l

variable {ρ : Pairing}

/-- The same but for spans and the widths of numbers. -/
def Node.Corresponds (a b : Node) : Prop := a.content = b.content

/-- The same but for the widths of numbers, for the code of functions up to its places, and for
identities that belong together. -/
inductive Value.Corresponds (ρ : Pairing) : Value → Value → Prop where
  | null : Corresponds ρ .null .null
  | bool (b : Bool) : Corresponds ρ (.bool b) (.bool b)
  | number {x w v} : Corresponds ρ (.number x w) (.number x v)
  | text {s length} : Corresponds ρ (.text s length) (.text s length)
  | native (f : Native) : Corresponds ρ (.native f) (.native f)
  | array {i j elements elements'} (same : ρ.pairs i j)
      (inside : List.Forall₂ (Corresponds ρ) elements elements') :
      Corresponds ρ (.array i elements) (.array j elements')
  | object {i j fields fields'} (same : ρ.pairs i j)
      (keys : fields.map Prod.fst = fields'.map Prod.fst)
      (inside : List.Forall₂ (Corresponds ρ) (fields.map Prod.snd) (fields'.map Prod.snd)) :
      Corresponds ρ (.object i fields) (.object j fields')
  | function {i j name params body body' scope} (same : ρ.pairs i j)
      (statements : List.Forall₂ Node.Corresponds body body') :
      Corresponds ρ (.function i name params body scope) (.function j name params body' scope)
  | lambda {i j params body body' scope} (same : ρ.pairs i j) (result : body.Corresponds body') :
      Corresponds ρ (.lambda i params body scope) (.lambda j params body' scope)
  | returned {i j inner inner'} (same : ρ.pairs i j) (inside : Corresponds ρ inner inner') :
      Corresponds ρ (.returned i inner) (.returned j inner')

/-- The same scopes, names and markers, with values that correspond. Each identity that one machine
hands out from now on belongs to the one that the other hands out at the same time. Since the pairs
are one to one, neither is the identity of anything that is paired already, so `is` tells new
instances from old ones, and from each other, on both sides or on neither. -/
structure Machine.Corresponds (ρ : Pairing) (m n : Machine) : Prop where
  scopes : m.store.Like (.anyOrder (Value.Corresponds ρ)) n.store
  fresh (k : Nat) : ρ.pairs (m.nextIdentity + k) (n.nextIdentity + k)

/-! ### Correspondence is a likeness -/

theorem forall₂_join {α β : Type} {r : α → β → Prop} {r' : α → α → Prop}
    (joins : ∀ a b c, r a c → r b c → r' a b) {xs ys : List α} {zs : List β}
    (first : List.Forall₂ r xs zs) (second : List.Forall₂ r ys zs) : List.Forall₂ r' xs ys := by
  induction first generalizing ys with
  | nil =>
    cases second
    exact .nil
  | cons left _ ih =>
    cases second with
    | cons right others => exact .cons (joins _ _ _ left right) (ih others)

theorem forall₂_pairs {α β : Type} {r : β → β → Prop} {xs ys : List (α × β)} :
    List.Forall₂ (fun a b => a.1 = b.1 ∧ r a.2 b.2) xs ys ↔
      xs.map Prod.fst = ys.map Prod.fst ∧
        List.Forall₂ r (xs.map Prod.snd) (ys.map Prod.snd) := by
  induction xs generalizing ys with
  | nil => cases ys <;> simp
  | cons x xs ih =>
    cases ys with
    | nil => simp
    | cons y ys =>
      simp only [List.forall₂_cons, List.map_cons, List.cons.injEq, ih]
      tauto

/-- Both trees have the form of what is left of either. -/
theorem Node.match_content {a b : Node} (same : a.Corresponds b) :
    Node.Match (fun _ _ => True) (fun _ _ => True) Node.Corresponds a b := by
  -- One tree is what is left of both. It fixes the form of each.
  have left := Node.match_forget (fun _ => 0) a
  have right := Node.match_forget (fun _ => 0) b
  rw [show b.forget (fun _ => 0) = a.forget (fun _ => 0) from same.symm] at right
  generalize a.forget (fun _ => 0) = c at left right
  have one (x y z : Node) (first : z = x.content) (second : z = y.content) : x.Corresponds y :=
    first.symm.trans second
  have all {xs ys zs : List Node} (first : List.Forall₂ (fun x z => z = x.content) xs zs)
      (second : List.Forall₂ (fun x z => z = x.content) ys zs) :
      List.Forall₂ Node.Corresponds xs ys := forall₂_join one first second
  cases left with
  | choice _ conditions last =>
    cases right with
    | choice _ conditions' last' =>
      refine .choice trivial (forall₂_join ?_ conditions conditions') (all last last')
      exact fun _ _ _ first second => ⟨one _ _ _ first.1 second.1, all first.2 second.2⟩
  | object _ inside =>
    cases right with
    | object _ inside' =>
      refine .object trivial (forall₂_join ?_ inside inside')
      rintro a b c ⟨-, key, value⟩ ⟨-, key', value'⟩
      exact ⟨trivial, key.trans key'.symm, one _ _ _ value value'⟩
  | _ =>
    cases right
    constructor <;> first | trivial | exact one _ _ _ ‹_› ‹_› | exact all ‹_› ‹_›

theorem Value.corresponds_iff {a b : Value} :
    a.Corresponds ρ b ↔ Value.Match (fun _ _ => True) ρ.pairs Node.Corresponds
      (Value.Corresponds ρ) a b := by
  constructor
  · intro alike
    cases alike with
    | object same keys inside => exact .object same (forall₂_pairs.mpr ⟨keys, inside⟩)
    | number => exact .number trivial
    | _ => constructor <;> assumption
  · intro alike
    cases alike with
    | object same inside =>
      obtain ⟨keys, values⟩ := forall₂_pairs.mp inside
      exact .object same keys values
    | number => exact .number
    | _ => constructor <;> assumption

def Likeness.corresponding (ρ : Pairing) : Likeness where
  place _ _ := True
  width _ _ := True
  identity := ρ.pairs
  node := Node.Corresponds
  value := Value.Corresponds ρ
  nowhere := trivial
  computed := trivial
  oneToOne := ρ.oneToOne
  node_match := Node.match_content
  value_iff := Value.corresponds_iff

/-- Both outputs go on alike from where they were. -/
def Eval.Simulation.corresponding (ρ : Pairing) (o o' : Bytes) : Eval.Simulation :=
  { Likeness.corresponding ρ with
    scopes := .anyOrder (Value.Corresponds ρ)
    output := fun left right => ∃ written, left = o ++ written ∧ right = o' ++ written
    output_append := by
      rintro _ _ ⟨written, rfl, rfl⟩ text
      exact ⟨written ++ text, by simp, by simp⟩
    loose := False }

/-! ### Two runs -/

theorem Failure.forget_eq_of_like {e f : Failure} (like : e.Like (fun _ _ => True) f) :
    e.forget = f.forget := by
  cases like <;> rfl

/-- Machines that correspond, with the same written since `m` and `n`. -/
structure Machine.Follow (ρ : Pairing) (m n m' n' : Machine) : Prop where
  machines : m'.Corresponds ρ n'
  written : ∃ text, m'.output = m.output ++ text ∧ n'.output = n.output ++ text

/-- Two evaluations from the machines `m` and `n` end alike: with values that correspond, or with
failures that differ at most in their span. -/
inductive Eval.SameEnd (ρ : Pairing) (m n : Machine) :
    EStateM.Result Failure Machine Value → EStateM.Result Failure Machine Value → Prop where
  | value {a b m' n'} (machines : m.Follow ρ n m' n') (alike : a.Corresponds ρ b)
      (form : a.render = b.render) (kind : a.typeName = b.typeName) :
      SameEnd ρ m n (.ok a m') (.ok b n')
  | failure {e f m' n'} (machines : m.Follow ρ n m' n') (reason : e.forget = f.forget)
      (text : e.text = f.text) : SameEnd ρ m n (.error e m') (.error f n')

theorem Eval.SameEnd.finished_iff {m n : Machine}
    {left right : EStateM.Result Failure Machine Value} (same : SameEnd ρ m n left right) :
    Finished left ↔ Finished right := by
  cases same with
  | value => exact Iff.rfl
  -- Forgetting the span keeps the kind of a failure.
  | @failure e f _ _ _ reason _ =>
    cases e <;> cases f <;> first | exact Iff.rfl | cases reason

/-- Within the same depth, trees that correspond end alike. -/
theorem eval_sameEnd {left right : Node} (same : left.Corresponds right) {m n : Machine}
    (alike : m.Corresponds ρ n) (depth : Nat) (s : ScopeId) :
    Eval.SameEnd ρ m n (eval depth left s m) (eval depth right s n) := by
  have start : (Eval.Simulation.corresponding ρ m.output n.output).Machines m n :=
    ⟨alike.scopes, alike.fresh, [], by simp, by simp⟩
  have agree := Eval.Simulation.agrees_eval _ (.inl (Eq.refl depth)) left right s same m n start
  -- Nothing is excused, as the depth is the same on both sides.
  obtain ⟨a, m', b, n', first, second, machines, values⟩ |
    ⟨e, m', f, n', first, second, machines, failures⟩ | ⟨-, -, -, never, -⟩ := agree.cases
  · rw [first, second]
    exact .value ⟨⟨machines.store, machines.fresh⟩, machines.output⟩ values
      (Likeness.render_eq _ _ values) (Likeness.typeName_eq values)
  · rw [first, second]
    have reason := Failure.forget_eq_of_like failures
    refine .failure ⟨⟨machines.store, machines.fresh⟩, machines.output⟩ reason ?_
    rw [← e.text_forget, ← f.text_forget, reason]
  · exact never.elim

/-- Evaluation does not depend on where code stands. One of two evaluations ends when the other
does, and then both end alike. -/
theorem eval_corresponds {left right : Node} (same : left.Corresponds right) {m n : Machine}
    (alike : m.Corresponds ρ n) (s : ScopeId) :
    (∀ depth, Eval.Finished (eval depth left s m) ↔ Eval.Finished (eval depth right s n)) ∧
    ∀ depth depth', Eval.Finished (eval depth left s m) →
      Eval.Finished (eval depth' right s n) →
      Eval.SameEnd ρ m n (eval depth left s m) (eval depth' right s n) := by
  constructor
  · intro depth
    exact (eval_sameEnd same alike depth s).finished_iff
  · intro depth depth' ended ended'
    -- Both runs are followed to the larger of the two depths, where they have long ended.
    have deep := eval_sameEnd same alike (max depth depth') s
    rwa [eval_mono (Nat.le_max_left _ _) ended, eval_mono (Nat.le_max_right _ _) ended'] at deep

/-- A function without parameters, called where it is made. -/
def calledConstant (place : Span) (width : Int) : Node :=
  .call place (.lambda place [] (.number place 1 width)) []

/-- The number `i` belongs to `i + 7`. -/
def Pairing.shifted : Pairing where
  pairs i j := i + 7 = j
  oneToOne first second := by omega

theorem eval_corresponds_calledConstant :
    Eval.SameEnd .shifted .initial ⟨.initial, utf8 "before", 7⟩
      (eval 3 (calledConstant .zero 1) Store.globalScope .initial)
      (eval 2 (calledConstant ⟨⟨52, 4, 5⟩, ⟨60, 4, 13⟩⟩ 3) Store.globalScope
        ⟨.initial, utf8 "before", 7⟩) := by
  have start : Store.initial.All fun a => a.Corresponds .shifted a :=
    .initial .null .bool .native
  have machines : Machine.initial.Corresponds .shifted ⟨.initial, utf8 "before", 7⟩ := by
    refine ⟨start.like, fun k => ?_⟩
    change 0 + k + 7 = 7 + k
    omega
  exact (eval_corresponds (by rfl) machines Store.globalScope).2 3 2 trivial trivial

end Tide
