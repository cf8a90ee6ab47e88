import Mathlib
import Tide.Proofs.Eval.Linked
import Tide.Proofs.Eval.Sources
import Tide.Proofs.Grammar.Trees
import Tide.Proofs.Scope.Values
import Tide.Proofs.Value.Held

/-!
# Return signals stay inside the function they end

A `return` gives a marked value, and nothing in the evaluator keeps that value from being stored,
passed on or returned like any other. What keeps it is the grammar. `Eval.guarded` is the evaluator
with a check at every place that a signal must not reach: it fails where a signal would become an
element, a property, an argument, the result of a call or the content of a scope. On programs that
parse, it never fails so, and it does what `eval` does.

## Proof strategy

The values of a run are ordinary: no signal in them, and the code of a closure is grammatical. One
step keeps this, construct by construct, and a statement gives a signal only where a `return` may
stand. The rest is induction on the depth and on the list of programs.
-/
namespace Tide

open Grammar

/-! ### Signals in values and machines -/

namespace Value

mutual

/-- No signal, neither the value itself nor anything held in it. -/
def sealed : Value → Bool
  | .returned .. => false
  | .array _ elements => sealedAll elements
  | .object _ fields => sealedFields fields
  | .null | .bool _ | .number .. | .text .. | .native _ | .function .. | .lambda .. => true

def sealedAll : List Value → Bool
  | [] => true
  | value :: rest => sealed value && sealedAll rest

def sealedFields : List (Bytes × Value) → Bool
  | [] => true
  | (_, value) :: rest => sealed value && sealedFields rest

end

theorem sealedAll_iff {values : List Value} :
    sealedAll values = true ↔ ∀ value ∈ values, value.sealed = true := by
  induction values with
  | nil => simp [sealedAll]
  | cons value rest ih => simp [sealedAll, ih]

theorem sealedFields_iff {fields : List (Bytes × Value)} :
    sealedFields fields = true ↔ ∀ entry ∈ fields, entry.2.sealed = true := by
  induction fields with
  | nil => simp [sealedFields]
  | cons entry rest ih => simp [sealedFields, ih]

end Value

/-- No scope holds a signal. -/
def Machine.sealed (machine : Machine) : Bool :=
  machine.store.scopes.all fun scope => scope.bindings.all fun b => b.value.sealed

theorem Machine.sealed_iff {machine : Machine} :
    machine.sealed = true ↔ machine.store.All fun value => value.sealed = true := by
  simp only [Machine.sealed, Array.all_eq_true_iff_forall_mem, List.all_eq_true]
  rfl

/-! ### The evaluator with checks -/

namespace Eval

/-- What a signal out of place is reported as. -/
def leak : Failure := .runtime .returnOutsideFunction .zero

/-- Fails when a signal is held in a scope before or after. -/
def watched (x : Eval Value) : Eval Value := fun machine =>
  if machine.sealed then
    match x machine with
    | .ok value machine => if machine.sealed then .ok value machine else .error leak machine
    | .error failure machine =>
      if machine.sealed then .error failure machine else .error leak machine
  else .error leak machine

/-- Fails when the value is a signal or holds one. -/
def confined (x : Eval Value) : Eval Value := do
  let value ← x
  if value.sealed then return value else throw leak

/-- Evaluation with a check of every value. -/
def checked (eval : Node → ScopeId → Eval Value) (node : Node) (s : ScopeId) : Eval Value :=
  confined (eval node s)

/-- One step of evaluation. Only a choice passes on what its bodies give, and only the statements
of a function that is called may give a signal. -/
def guardedStep (eval : Node → ScopeId → Eval Value) (limit : Nat) (node : Node) (s : ScopeId) :
    Eval Value :=
  match node with
  | .choice .. => step eval limit node s
  | .call span callee arguments => do
    let values ← all (checked eval) s arguments
    let function ← checked eval callee s
    confined (apply eval limit function values span)
  | _ => step (checked eval) limit node s

def guarded : Nat → Node → ScopeId → Eval Value
  | 0, _, _ => throw .exhausted
  | depth + 1, node, s => watched (guardedStep (guarded depth) depth node s)

/-! ### Ordinary values -/

/-- Holds no signal, and closures hold code in which every `return` is in its place. -/
inductive Ordinary : Value → Prop where
  | null : Ordinary .null
  | bool (b : Bool) : Ordinary (.bool b)
  | number (x : Float) (written : Option Int) : Ordinary (.number x written)
  | text (s : Bytes) (length : Int) : Ordinary (.text s length)
  | native (f : Native) : Ordinary (.native f)
  | array {identity elements} (inside : ∀ value ∈ elements, Ordinary value) :
      Ordinary (.array identity elements)
  | object {identity fields} (inside : ∀ entry ∈ fields, Ordinary entry.2) :
      Ordinary (.object identity fields)
  | function {identity name params body scope}
      (code : ∀ node ∈ body, Grammatical .any (.statement true) node) :
      Ordinary (.function identity name params body scope)
  | lambda {identity params body scope} (code : Grammatical .any .expression body) :
      Ordinary (.lambda identity params body scope)

theorem Ordinary.sealed {value : Value} (ordinary : Ordinary value) : value.sealed = true := by
  induction ordinary with
  | array inside ih => exact Value.sealedAll_iff.mpr ih
  | object inside ih => exact Value.sealedFields_iff.mpr ih
  | _ => rfl

/-- What a statement may give: an ordinary value, or where a `return` may stand a signal. -/
def Passing (returns : Bool) (value : Value) : Prop :=
  Ordinary value ∨
    returns = true ∧ ∃ identity inner, value = .returned identity inner ∧ Ordinary inner

theorem passing_false {value : Value} : Passing false value ↔ Ordinary value := by
  simp [Passing]

/-! ### The two evaluators side by side -/

/-- Both do the same, on stores with ordinary values only, and neither reports a leak. -/
def signals : Link where
  machine m n := m = n ∧ m.store.All Ordinary
  failure e f := e = f ∧ ∀ span, e ≠ .runtime .returnOutsideFunction span
  excused _ := False

def Same {α : Type} (Q : α → Prop) (a b : α) : Prop := a = b ∧ Q a

section

variable {α : Type} {Q : α → Prop} {x y : Eval α}

theorem runs_fail {fault : RuntimeFault} {span : Span} (harmless : fault ≠ .returnOutsideFunction) :
    signals.Runs (fail fault span) (fail fault span) (Same Q) :=
  .throw ⟨rfl, by simp [harmless]⟩

theorem runs_pure {a : α} (given : Q a) : signals.Runs (pure a) (pure a) (Same Q) :=
  .pure ⟨rfl, given⟩

theorem runs_bind {β : Type} {R : β → Prop} {f g : α → Eval β} (first : signals.Runs x y (Same Q))
    (second : ∀ a, Q a → signals.Runs (f a) (g a) (Same R)) :
    signals.Runs (x >>= f) (y >>= g) (Same R) := by
  refine first.bind fun a b related => ?_
  obtain ⟨rfl, given⟩ := related
  exact second a given

theorem runs_mono {R : α → Prop} (run : signals.Runs x y (Same Q)) (weaker : ∀ a, Q a → R a) :
    signals.Runs x y (Same R) :=
  run.mono fun _ _ related => ⟨related.1, weaker _ related.2⟩

end

/-! ### Primitives -/

theorem runs_fresh : signals.Runs fresh fresh (Same fun _ => True) := by
  rintro m _ ⟨rfl, held⟩
  exact ⟨⟨rfl, held⟩, rfl, trivial⟩

theorem runs_print (text : Bytes) :
    signals.Runs (print text) (print text) (Same fun _ => True) := by
  rintro m _ ⟨rfl, held⟩
  exact ⟨⟨rfl, held⟩, rfl, trivial⟩

theorem runs_lookup (s : ScopeId) (name : Bytes) (span : Span) :
    signals.Runs (lookup s name span) (lookup s name span) (Same Ordinary) := by
  rintro m _ ⟨rfl, held⟩
  simp only [lookup, get, getThe, MonadStateOf.get, EStateM.get, bind, EStateM.bind]
  cases found : m.store.lookup s name with
  | ok value => exact ⟨⟨rfl, held⟩, rfl, held.lookup found⟩
  | error fault => exact runs_fail (by simp) m m ⟨rfl, held⟩

theorem runs_updateStore {fault? : Store → Option ScopeFault} {change : Store → Store}
    {span : Span} (keeps : ∀ store : Store, store.All Ordinary → (change store).All Ordinary) :
    signals.Runs (updateStore fault? change span) (updateStore fault? change span)
      (Same fun _ => True) := by
  rintro ⟨store, output, next⟩ _ ⟨rfl, held⟩
  simp only [updateStore]
  split
  · exact .inr ⟨⟨rfl, held⟩, rfl, by simp⟩
  · exact ⟨⟨rfl, keeps store held⟩, rfl, trivial⟩

theorem runs_declare (s : ScopeId) (name : Bytes) {value : Value} (constant : Bool) (span : Span)
    (given : Ordinary value) :
    signals.Runs (declare s name value constant span) (declare s name value constant span)
      (Same fun _ => True) :=
  runs_updateStore fun _ held => held.update fun _ held => held.declare given

theorem runs_assign (s : ScopeId) (name : Bytes) {value : Value} (span : Span)
    (given : Ordinary value) :
    signals.Runs (assign s name value span) (assign s name value span) (Same fun _ => True) :=
  runs_updateStore fun _ held => held.updateHome fun _ held => held.assign given

theorem runs_delete (s : ScopeId) (name : Bytes) (span : Span) :
    signals.Runs (delete s name span) (delete s name span) (Same fun _ => True) :=
  runs_updateStore fun _ held => held.updateHome fun _ held => held.delete

theorem runs_child (parent : ScopeId) :
    signals.Runs (child parent) (child parent) (Same fun _ => True) := by
  rintro ⟨store, output, next⟩ _ ⟨rfl, held⟩
  exact ⟨⟨rfl, held.child⟩, rfl, trivial⟩

theorem runs_confined {x y : Eval Value} (run : signals.Runs x y (Same Ordinary)) :
    signals.Runs x (confined y) (Same Ordinary) := by
  have both : signals.Runs (x >>= pure) (confined y) (Same Ordinary) := by
    refine runs_bind run fun value given => ?_
    rw [if_pos given.sealed]
    exact runs_pure given
  rwa [bind_pure] at both

/-- Ordinary stores hold no signals, so the checks before and after pass. -/
theorem runs_watched {Q : Value → Prop} {x y : Eval Value} (run : signals.Runs x y (Same Q)) :
    signals.Runs x (watched y) (Same Q) := by
  rintro m _ ⟨rfl, held⟩
  have sealedBy (m : Machine) (held : m.store.All Ordinary) : m.sealed = true :=
    Machine.sealed_iff.mpr (held.mono fun _ ordinary => ordinary.sealed)
  have agree := run m m ⟨rfl, held⟩
  simp only [watched, sealedBy m held, if_true]
  obtain ⟨a, after, b, _, left, right, ⟨rfl, kept⟩, given⟩ |
    ⟨e, after, f, _, left, right, ⟨rfl, kept⟩, failures⟩ | ⟨_, _, -, never⟩ := agree.cases
  · rw [left, right]
    simp only [sealedBy after kept, if_true]
    exact ⟨⟨rfl, kept⟩, given⟩
  · rw [left, right]
    simp only [sealedBy after kept, if_true]
    exact .inr ⟨⟨rfl, kept⟩, failures⟩
  · exact never.elim

/-! ### Natives give ordinary values -/

theorem Ordinary.ofFlat {value : Value} (flat : value.Flat) : Ordinary value := by
  cases flat <;> constructor

theorem runs_native (f : Native) (limit : Nat) (arguments : List Value) (span : Span) :
    signals.Runs (f.call limit arguments span) (f.call limit arguments span) (Same Ordinary) := by
  cases f with
  | print => exact runs_bind (runs_print _) fun _ _ => runs_pure .null
  | type =>
    simp only [Native.call]
    split
    · exact runs_pure (.text ..)
    · exact runs_fail (by simp)
  | range =>
    simp only [Native.call]
    split
    · exact runs_fail (by simp)
    · split
      · exact .throw ⟨rfl, by simp⟩
      next counted =>
        have inside := Native.flat_of_rangeFrom counted
        exact runs_bind runs_fresh fun _ _ => runs_pure (.array fun value member =>
          .ofFlat (inside value member))

/-! ### Constructs -/

section

variable {ev guard : Node → ScopeId → Eval Value} {s : ScopeId}

theorem runs_all {nodes : List Node}
    (each : ∀ node ∈ nodes, signals.Runs (ev node s) (guard node s) (Same Ordinary)) :
    signals.Runs (all ev s nodes) (all guard s nodes)
      (Same fun values => ∀ value ∈ values, Ordinary value) := by
  induction nodes with
  | nil => exact runs_pure (by simp)
  | cons node rest ih =>
    obtain ⟨first, others⟩ := List.forall_mem_cons.mp each
    refine runs_bind first fun value given => ?_
    refine runs_bind (ih others) fun values held => ?_
    exact runs_pure (List.forall_mem_cons.mpr ⟨given, held⟩)

theorem runs_body {returns : Bool} {nodes : List Node} {result : Value}
    (each : ∀ node ∈ nodes, signals.Runs (ev node s) (guard node s) (Same (Passing returns)))
    (given : Ordinary result) :
    signals.Runs (body ev s result nodes) (body guard s result nodes) (Same (Passing returns)) := by
  induction nodes generalizing result with
  | nil => exact runs_pure (.inl given)
  | cons node rest ih =>
    obtain ⟨first, others⟩ := List.forall_mem_cons.mp each
    refine runs_bind first fun value passing => ?_
    rcases passing with ordinary | ⟨allowed, identity, inner, rfl, ordinary⟩
    · have goesOn := ih others ordinary
      cases ordinary <;> exact goesOn
    · exact runs_pure (.inr ⟨allowed, identity, inner, rfl, ordinary⟩)

theorem runs_program {nodes : List Node} {result : Value}
    (each : ∀ node ∈ nodes, signals.Runs (ev node s) (guard node s) (Same Ordinary))
    (given : Ordinary result) :
    signals.Runs (program ev s result nodes) (program guard s result nodes) (Same Ordinary) := by
  induction nodes generalizing result with
  | nil => exact runs_pure given
  | cons node rest ih =>
    obtain ⟨first, others⟩ := List.forall_mem_cons.mp each
    refine runs_bind first fun value ordinary => ?_
    have goesOn := ih others ordinary
    cases ordinary <;> exact goesOn

theorem runs_fields {properties : List Property} {made : Fields Value}
    (each : ∀ entry ∈ properties, entry.value.isMissing = false →
      signals.Runs (ev entry.value s) (guard entry.value s) (Same Ordinary))
    (held : ∀ entry ∈ made, Ordinary entry.2) :
    signals.Runs (fields ev s made properties) (fields guard s made properties)
      (Same fun made => ∀ entry ∈ made, Ordinary entry.2) := by
  induction properties generalizing made with
  | nil => exact runs_pure held
  | cons entry rest ih =>
    obtain ⟨first, others⟩ := List.forall_mem_cons.mp each
    obtain ⟨span, key, value⟩ := entry
    simp only [fields]
    -- Only an entry with a value has anything to evaluate.
    split
    · exact runs_bind (runs_lookup s key span) fun value given =>
        ih others (Fields.forall_set held given)
    next present =>
      have present : value.isMissing = false := by simpa using present
      exact runs_bind (first present) fun value given => ih others (Fields.forall_set held given)

theorem runs_choice {returns : Bool} {branches : List Branch} {otherwise : Option (List Node)}
    (conditions : ∀ branch ∈ branches,
      signals.Runs (ev branch.condition s) (guard branch.condition s) (Same Ordinary))
    (bodies : ∀ branch ∈ branches, ∀ node ∈ branch.body,
      signals.Runs (ev node s) (guard node s) (Same (Passing returns)))
    (last : ∀ node ∈ otherwise.getD [],
      signals.Runs (ev node s) (guard node s) (Same (Passing returns))) :
    signals.Runs (choice ev s otherwise branches) (choice guard s otherwise branches)
      (Same (Passing returns)) := by
  -- On the branches: where a condition is false, the rest is a choice again.
  induction branches with
  | nil => exact runs_body last .null
  | cons branch rest ih =>
    obtain ⟨condition, otherConditions⟩ := List.forall_mem_cons.mp conditions
    obtain ⟨statements, otherBodies⟩ := List.forall_mem_cons.mp bodies
    obtain ⟨span, test, nodes⟩ := branch
    refine runs_bind condition fun value ordinary => ?_
    cases ordinary with
    | bool b =>
      cases b with
      | true => exact runs_body statements .null
      | false => exact ih otherConditions otherBodies
    | _ => exact runs_fail (by simp)

theorem runs_bindAll (span : Span) {names : List Bytes} {values : List Value}
    (given : ∀ value ∈ values, Ordinary value) :
    signals.Runs (bindAll s span names values) (bindAll s span names values)
      (Same fun _ => True) := by
  induction names generalizing values with
  | nil => exact runs_pure trivial
  | cons name names ih =>
    cases values with
    | nil => exact runs_pure trivial
    | cons value values =>
      obtain ⟨first, others⟩ := List.forall_mem_cons.mp given
      exact runs_bind (runs_declare s name false span first) fun _ _ => ih others

theorem runs_callScope (name : Bytes) (params : List Bytes) {arguments : List Value}
    (home : ScopeId) (span : Span) (given : ∀ value ∈ arguments, Ordinary value) :
    signals.Runs (callScope name params arguments home span)
      (callScope name params arguments home span) (Same fun _ => True) := by
  unfold callScope
  split
  · refine runs_bind (runs_child home) fun s _ => ?_
    exact runs_bind (runs_bindAll span given) fun _ _ => runs_pure trivial
  · exact runs_fail (by simp)

theorem runs_operation (span : Span) (family : Family) (operator : Kind) {left right : Node}
    (first : signals.Runs (ev left s) (guard left s) (Same Ordinary))
    (second : signals.Runs (ev right s) (guard right s) (Same Ordinary)) :
    signals.Runs (operation ev s span family operator left right)
      (operation guard s span family operator left right) (Same Ordinary) := by
  refine runs_bind first fun a _ => runs_bind second fun b _ => ?_
  split
  next result => exact runs_pure (.ofFlat (Value.flat_of_operate result))
  next => exact runs_fail (by simp)

theorem runs_member (span : Span) {object property : Node} {computed : Bool}
    (inside : signals.Runs (ev object s) (guard object s) (Same Ordinary))
    (key : computed = true → signals.Runs (ev property s) (guard property s) (Same Ordinary)) :
    signals.Runs (member ev s span object property computed)
      (member guard s span object property computed) (Same Ordinary) := by
  refine runs_bind inside fun collection ordinary => ?_
  have keyed : signals.Runs (memberKey ev s property computed)
      (memberKey guard s property computed) (Same Ordinary) := by
    cases computed with
    | true => exact key rfl
    | false =>
      simp only [memberKey, Bool.false_eq_true, if_false]
      split
      · exact runs_pure (Ordinary.text ..)
      · exact runs_fail (by simp)
  refine runs_bind keyed fun found _ => ?_
  -- What an ordinary array or object holds is ordinary.
  cases ordinary with
  | object inside =>
    simp only
    split
    · exact runs_pure (Fields.getD_of_forall inside .null)
    · exact runs_fail (by simp)
  | array inside =>
    simp only
    split
    · split
      next found => exact runs_pure (inside _ (mem_of_element found))
      next => exact runs_fail (by simp)
    · exact runs_fail (by simp)
  | _ => exact runs_fail (by simp)

theorem runs_declaration (span : Span) (name : Bytes) (constant : Bool) {value : Node}
    (initial : value.isMissing = false →
      signals.Runs (ev value s) (guard value s) (Same Ordinary)) :
    signals.Runs (declaration ev s span name constant value)
      (declaration guard s span name constant value) (Same Ordinary) := by
  have stored {found : Value} (given : Ordinary found) :
      signals.Runs (declare s name found constant span >>= fun _ => pure found)
        (declare s name found constant span >>= fun _ => pure found) (Same Ordinary) :=
    runs_bind (runs_declare s name constant span given) fun _ _ => runs_pure given
  simp only [declaration]
  split
  · exact stored .null
  next present => exact runs_bind (initial (by simpa using present)) fun found => stored

theorem runs_function (span : Span) (name : Bytes) (params : List Bytes) {body : List Node}
    (code : ∀ node ∈ body, Grammatical .any (.statement true) node) :
    signals.Runs (function s span name params body) (function s span name params body)
      (Same Ordinary) := by
  refine runs_bind runs_fresh fun identity _ => ?_
  have made : Ordinary (.function identity name params body s) := .function code
  exact runs_bind (runs_declare s name true span made) fun _ _ => runs_pure made

theorem runs_assignment (span : Span) (target : Node) {value : Node}
    (right : signals.Runs (ev value s) (guard value s) (Same Ordinary)) :
    signals.Runs (assignment ev s span target value) (assignment guard s span target value)
      (Same Ordinary) := by
  unfold assignment
  split
  next name =>
    refine runs_bind right fun found given => ?_
    exact runs_bind (runs_assign s name span given) fun _ _ => runs_pure given
  · exact runs_fail (by simp)

end

/-- What two evaluators must share for one step with either to be the same. -/
def Matched (ev guard : Node → ScopeId → Eval Value) : Prop :=
  ∀ returns node s, Grammatical .any (.statement returns) node →
    signals.Runs (ev node s) (guard node s) (Same (Passing returns))

section

variable {ev guard : Node → ScopeId → Eval Value} {s : ScopeId}

theorem Matched.plain (matched : Matched ev guard) {node : Node}
    (code : Grammatical .any (.statement false) node) :
    signals.Runs (ev node s) (checked guard node s) (Same Ordinary) :=
  runs_confined (runs_mono (matched false node s code) fun _ => passing_false.mp)

theorem Matched.expression (matched : Matched ev guard) {node : Node}
    (code : Grammatical .any .expression node) :
    signals.Runs (ev node s) (checked guard node s) (Same Ordinary) :=
  matched.plain (.ofExpression code)

/-- A call takes the signal of a function body off, and a lambda has no statements. -/
theorem Matched.apply (matched : Matched ev guard) (limit : Nat) {callee : Value}
    {arguments : List Value} (span : Span) (ordinary : Ordinary callee)
    (given : ∀ value ∈ arguments, Ordinary value) :
    signals.Runs (apply ev limit callee arguments span)
      (apply guard limit callee arguments span) (Same Ordinary) := by
  cases ordinary with
  | native f => exact runs_native f limit arguments span
  | function code =>
    refine runs_bind (runs_callScope _ _ _ span given) fun s _ => ?_
    refine runs_bind (runs_body (fun node member => matched true node s (code node member)) .null)
      fun value passing => ?_
    -- The body may have ended in a signal; the call gives what the signal holds.
    rcases passing with ordinary | ⟨-, identity, inner, rfl, ordinary⟩
    · cases ordinary <;> exact runs_pure .null
    · exact runs_pure ordinary
  | lambda code =>
    refine runs_bind (runs_callScope _ _ _ span given) fun s _ => ?_
    exact runs_mono (matched false _ s (.ofExpression code)) fun _ => passing_false.mp
  | _ => exact runs_fail (by simp)

theorem Matched.choice (matched : Matched ev guard) (limit : Nat) {returns : Bool} {node : Node}
    (code : Grammatical .any (.choice returns) node) :
    signals.Runs (step ev limit node s) (guardedStep guard limit node s)
      (Same (Passing returns)) := by
  cases code with
  | choice filled conditions bodies last =>
    refine runs_choice ?_ ?_ ?_
    · intro branch member
      have condition := matched false branch.condition s (.ofExpression (conditions branch member))
      exact runs_mono condition fun _ => passing_false.mp
    · exact fun branch member node inside => matched _ node s (bodies branch member node inside)
    · exact fun node member => matched _ node s (last node member)

/-- An expression is never a signal, whatever its parts are evaluated by. -/
theorem Matched.step_expression (matched : Matched ev guard) (limit : Nat) {node : Node}
    (code : Grammatical .any .expression node) :
    signals.Runs (step ev limit node s) (guardedStep guard limit node s) (Same Ordinary) := by
  -- The grammar has expressions only for the parts of an expression, so each part gives an ordinary
  -- value.
  cases code with
  | choiceTerm whole => exact runs_mono (matched.choice limit whole) fun _ => passing_false.mp
  | lambda parameters body =>
    exact runs_bind runs_fresh fun _ _ => runs_pure (.lambda body)
  | del named => exact runs_bind (runs_delete s _ _) fun _ _ => runs_pure .null
  | raise => exact .throw ⟨rfl, by simp⟩
  | assign left right => exact runs_assignment _ _ (matched.expression right)
  | property inside named => exact runs_member _ (matched.expression inside) (by simp)
  | index inside computed =>
    exact runs_member _ (matched.expression inside) fun _ => matched.expression computed
  | call head inputs =>
    refine runs_bind (runs_all fun node member => matched.expression (inputs node member))
      fun values given => ?_
    refine runs_bind (matched.expression head) fun function ordinary => ?_
    exact runs_confined (matched.apply limit _ ordinary given)
  | operation belongs first second =>
    exact runs_operation _ _ _ (matched.expression first) (matched.expression second)
  | name named => exact runs_lookup s _ _
  | number read => exact runs_pure (.number ..)
  | text => exact runs_pure (.text ..)
  | array inside =>
    refine runs_bind (runs_all fun node member => matched.expression (inside node member))
      fun values given => ?_
    exact runs_bind runs_fresh fun _ _ => runs_pure (.array given)
  | object keys values =>
    refine runs_bind (runs_fields (fun entry member present =>
      matched.expression (values entry member present)) (by simp)) fun made held => ?_
    exact runs_bind runs_fresh fun _ _ => runs_pure (.object held)

theorem Matched.step (matched : Matched ev guard) (limit : Nat) {returns : Bool} {node : Node}
    (code : Grammatical .any (.statement returns) node) :
    signals.Runs (Eval.step ev limit node s) (guardedStep guard limit node s)
      (Same (Passing returns)) := by
  cases code with
  | @bare _ span name named =>
    have stored : signals.Runs (declaration ev s span name false .missing)
        (declaration (checked guard) s span name false .missing) (Same Ordinary) :=
      runs_declaration span name false nofun
    exact runs_mono stored fun _ => .inl
  | declare named initial =>
    exact runs_mono (runs_declaration _ _ _ fun _ => matched.plain initial) fun _ => .inl
  | function named parameters statements =>
    exact runs_mono (runs_function _ _ _ statements) fun _ => .inl
  | ret result =>
    refine runs_bind (matched.expression result) fun value ordinary => ?_
    exact runs_bind runs_fresh fun identity _ =>
      runs_pure (.inr ⟨rfl, identity, value, rfl, ordinary⟩)
  | ofChoice whole => exact matched.choice limit whole
  | ofExpression whole =>
    exact runs_mono (matched.step_expression limit whole) fun _ => .inl

theorem Matched.step_program (matched : Matched ev guard) (limit : Nat) (span : Span)
    {statements : List Node}
    (code : ∀ node ∈ statements, Grammatical .any (.statement false) node) :
    signals.Runs (Eval.step ev limit (.program span statements) s)
      (guardedStep guard limit (.program span statements) s) (Same Ordinary) :=
  runs_program (fun node member => matched.plain (code node member)) .null

end

theorem matched_guarded (depth : Nat) : Matched (eval depth) (guarded depth) := by
  induction depth with
  | zero => exact fun _ _ _ _ => .throw ⟨rfl, by simp⟩
  | succ depth ih => exact fun _ _ _ code => runs_watched (ih.step depth code)

theorem runs_guarded_program (depth : Nat) (span : Span) (s : ScopeId) {statements : List Node}
    (code : ∀ node ∈ statements, Grammatical .any (.statement false) node) :
    signals.Runs (eval depth (.program span statements) s)
      (guarded depth (.program span statements) s) (Same Ordinary) := by
  cases depth with
  | zero => exact .throw ⟨rfl, by simp⟩
  | succ depth => exact runs_watched ((matched_guarded depth).step_program depth span code)

end Eval

/-! ### Programs one after another -/

/-- Neither the value of a program nor its failure shows a signal. -/
def Outcome.Sealed : Outcome → Prop
  | .value found => found.sealed = true
  | .refused _ => True
  | .failed failure => ∀ span, failure ≠ .runtime .returnOutsideFunction span

namespace Machine

/-- Runs a source in the evaluator with checks. -/
def guardedRun (machine : Machine) (depth : Nat) (source : Bytes) : Outcome × Machine :=
  match (read source).program with
  | .error diagnostic => (.refused diagnostic, machine)
  | .ok program => settle (Eval.guarded depth program Store.globalScope machine)

/-- Runs one source after another, each to its own depth. A source that does not parse or that
fails does not keep the next ones from running. -/
def runAll (run : Machine → Nat → Bytes → Outcome × Machine) (machine : Machine) :
    List (Nat × Bytes) → List Outcome × Machine
  | [] => ([], machine)
  | (depth, source) :: rest =>
    let (outcome, next) := run machine depth source
    let (outcomes, last) := runAll run next rest
    (outcome :: outcomes, last)

variable {machine : Machine}

theorem settle_of_agree {x y : EStateM.Result Failure Machine Value}
    (agree : Eval.signals.Agree (Eval.Same Eval.Ordinary) x y) :
    settle x = settle y ∧ (settle x).1.Sealed ∧ (settle x).2.store.All Eval.Ordinary := by
  obtain ⟨a, m, b, n, rfl, rfl, ⟨rfl, kept⟩, rfl, ordinary⟩ |
    ⟨e, m, f, n, rfl, rfl, ⟨rfl, kept⟩, rfl, harmless⟩ | ⟨_, _, -, never⟩ := agree.cases
  · exact ⟨rfl, ordinary.sealed, kept⟩
  · exact ⟨rfl, harmless, kept⟩
  · exact never.elim

/-- What one source preserves. -/
theorem run_eq_guardedRun (held : machine.store.All Eval.Ordinary) (depth : Nat) (source : Bytes) :
    machine.run depth source = machine.guardedRun depth source ∧
      (machine.run depth source).1.Sealed ∧
      (machine.run depth source).2.store.All Eval.Ordinary := by
  cases found : (read source).program with
  | error diagnostic =>
    rw [run_eq_refused found]
    simp only [guardedRun, found]
    exact ⟨trivial, trivial, held⟩
  -- The parser makes only trees of the grammar, and these are all that the checks rely on.
  | ok program =>
    rw [run_eq_settle found]
    simp only [guardedRun, found]
    obtain ⟨span, statements, rfl, code⟩ :=
      grammatical_of_parse (v := .any) (read_ok_iff.mp found).2 fun _ _ => trivial
    exact settle_of_agree
      (Eval.runs_guarded_program depth span Store.globalScope code machine machine ⟨rfl, held⟩)

theorem runAll_eq_guardedRun (held : machine.store.All Eval.Ordinary)
    (sources : List (Nat × Bytes)) :
    machine.runAll run sources = machine.runAll guardedRun sources ∧
      (∀ outcome ∈ (machine.runAll run sources).1, outcome.Sealed) ∧
      (machine.runAll run sources).2.store.All Eval.Ordinary := by
  induction sources generalizing machine with
  | nil => exact ⟨rfl, by simp [runAll], held⟩
  | cons entry rest ih =>
    obtain ⟨depth, source⟩ := entry
    obtain ⟨same, sealedFirst, kept⟩ := run_eq_guardedRun held depth source
    obtain ⟨sameRest, sealedRest, keptRest⟩ := ih kept
    simp only [runAll, ← same, ← sameRest]
    exact ⟨trivial, List.forall_mem_cons.mpr ⟨sealedFirst, sealedRest⟩, keptRest⟩

end Machine

/-- Whatever is run, and however it ends, the checks for signals out of place never fail, no
program gives or reports a signal, and no scope holds one afterwards. -/
theorem signals_stay_inside (sources : List (Nat × Bytes)) :
    Machine.initial.runAll Machine.run sources =
        Machine.initial.runAll Machine.guardedRun sources ∧
      (∀ outcome ∈ (Machine.initial.runAll Machine.run sources).1, outcome.Sealed) ∧
      (Machine.initial.runAll Machine.run sources).2.sealed = true := by
  have start : Machine.initial.store.All Eval.Ordinary := .initial .null .bool .native
  obtain ⟨same, outcomes, kept⟩ := Machine.runAll_eq_guardedRun start sources
  exact ⟨same, outcomes, Machine.sealed_iff.mpr (kept.mono fun _ ordinary => ordinary.sealed)⟩

end Tide
