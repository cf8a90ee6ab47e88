import Mathlib
import Tide.Proofs.Eval.Within
import Tide.Proofs.Grammar.Shapes
import Tide.Token.Scan

/-!
# Faults that no source text can cause

Some faults are not about what a program does but about the tree it is given: an operator that its
family does not have, a node of no known kind, something other than a name behind a point. Programs
that parse never cause them, in whatever order they are run.

## Proof strategy

`Eval.patched Node.formed` gives up at a node that is not formed. At the others, one step fails with
no internal fault if its parts do not, construct by construct, whatever the scopes hold. So it never
fails so at all, and on programs that parse it cannot be told from `eval`.
-/
namespace Tide

open Grammar

/-- Whether the fault says that the tree could not be evaluated. -/
def RuntimeFault.internal : RuntimeFault → Bool
  | .operator (.unknownArithmetic _) | .operator (.unknownComparison _)
  | .operator (.unknownLogical _) | .unexpectedNode | .propertyNotName => true
  | _ => false

def Failure.internal : Failure → Bool
  | .runtime fault _ => fault.internal
  | .raised .. | .exhausted => false

/-! ### Operators -/

namespace Value

theorem arithmetic_known {operator : Kind} (known : operator ∈ Family.arithmetic.operators)
    {a b : Value} {fault : OperatorFault} (failed : arithmetic operator a b = .error fault) :
    (RuntimeFault.operator fault).internal = false := by
  have divided {divisor quotient : Float} (failed : divide divisor quotient = .error fault) :
      (RuntimeFault.operator fault).internal = false := by
    unfold divide at failed
    split at failed
    · cases failed
      rfl
    · cases failed
  unfold arithmetic at failed
  split at failed
  · -- Of the seven operators only the three divisions can fail.
    simp only [Family.operators, List.mem_cons, List.not_mem_nil, or_false] at known
    rcases known with rfl | rfl | rfl | rfl | rfl | rfl | rfl
    all_goals first
      | exact divided failed
      | cases failed
  · cases failed

theorem compare_known {operator : Kind} (known : operator ∈ Family.comparison.operators)
    {a b : Value} {fault : OperatorFault} (failed : compare operator a b = .error fault) :
    (RuntimeFault.operator fault).internal = false := by
  simp only [Family.operators, List.mem_cons, List.not_mem_nil, or_false] at known
  rcases known with rfl | rfl | rfl | rfl | rfl | rfl
  all_goals
    simp only [compare, compareNumbers] at failed
    split at failed <;> cases failed

theorem logical_known {operator : Kind} (known : operator ∈ Family.logical.operators)
    {a b : Value} {fault : OperatorFault} (failed : logical operator a b = .error fault) :
    (RuntimeFault.operator fault).internal = false := by
  simp only [Family.operators, List.mem_cons, List.not_mem_nil, or_false] at known
  rcases known with rfl | rfl | rfl
  all_goals
    simp only [logical] at failed
    split at failed
    · cases failed
    -- Operands that are no truth values are the fault of the program.
    · cases failed
      rfl

/-- An operator of its family may fail, but not because nobody knows it. -/
theorem operate_known {family : Family} {operator : Kind} (known : operator ∈ family.operators)
    {a b : Value} {fault : OperatorFault} (failed : operate family operator a b = .error fault) :
    (RuntimeFault.operator fault).internal = false := by
  cases family with
  | arithmetic => exact arithmetic_known known failed
  | comparison => exact compare_known known failed
  | logical => exact logical_known known failed

end Value

namespace Eval

/-! ### Computations without internal faults -/

/-- No failure, or at least not with an internal fault. -/
def Harmless {α : Type} : EStateM.Result Failure Machine α → Prop
  | .ok _ _ => True
  | .error failure _ => failure.internal = false

/-- Whatever machine it starts on, it does not fail with an internal fault. -/
def Avoids {α : Type} (x : Eval α) : Prop := ∀ m, Harmless (x m)

namespace Avoids

variable {α β : Type}

theorem pure {a : α} : Avoids (Pure.pure a : Eval α) := fun _ => trivial

theorem throw {failure : Failure} (harmless : failure.internal = false) :
    Avoids (MonadExcept.throw failure : Eval α) :=
  fun _ => harmless

theorem fail {fault : RuntimeFault} {span : Span} (harmless : fault.internal = false) :
    Avoids (Eval.fail fault span : Eval α) :=
  throw harmless

theorem bind {x : Eval α} {f : α → Eval β} (first : Avoids x) (second : ∀ a, Avoids (f a)) :
    Avoids (x >>= f) := by
  intro m
  have harmless := first m
  change Harmless (EStateM.bind x f m)
  unfold EStateM.bind
  cases ran : x m with
  | ok a m' => exact second a m'
  | error e m' =>
    rw [ran] at harmless
    exact harmless

end Avoids

/-! ### Primitives -/

theorem avoids_fresh : Avoids fresh := fun _ => trivial

theorem avoids_print {text : Bytes} : Avoids (print text) := fun _ => trivial

theorem avoids_lookup {s : ScopeId} {name : Bytes} {span : Span} :
    Avoids (lookup s name span) := by
  have read : Avoids (get : Eval Machine) := fun _ => trivial
  refine read.bind fun machine => ?_
  split
  · exact .pure
  · exact .fail rfl

theorem avoids_updateStore {fault? : Store → Option ScopeFault} {change : Store → Store}
    {span : Span} : Avoids (updateStore fault? change span) := by
  rintro ⟨store, output, next⟩
  simp only [updateStore]
  split
  · exact rfl
  · trivial

theorem avoids_child {parent : ScopeId} : Avoids (child parent) := fun _ => trivial

theorem avoids_native {f : Native} {limit : Nat} {arguments : List Value} {span : Span} :
    Avoids (f.call limit arguments span) := by
  cases f with
  | print => exact avoids_print.bind fun _ => .pure
  | type =>
    simp only [Native.call]
    split
    · exact .pure
    · exact .fail rfl
  | range =>
    simp only [Native.call]
    split
    · exact .fail rfl
    · split
      · exact .throw rfl
      · exact avoids_fresh.bind fun _ => .pure

theorem avoids_bindAll {s : ScopeId} {span : Span} {names : List Bytes} {values : List Value} :
    Avoids (bindAll s span names values) := by
  induction names generalizing values with
  | nil => exact .pure
  | cons name names ih =>
    cases values with
    | nil => exact .pure
    | cons value values => exact avoids_updateStore.bind fun _ => ih

theorem avoids_callScope {name : Bytes} {params : List Bytes} {arguments : List Value}
    {home : ScopeId} {span : Span} : Avoids (callScope name params arguments home span) := by
  unfold callScope
  split
  · exact avoids_child.bind fun _ => avoids_bindAll.bind fun _ => .pure
  · exact .fail rfl

/-! ### Constructs -/

section

variable {ev : Node → ScopeId → Eval Value} (avoids : ∀ node s, Avoids (ev node s)) (s : ScopeId)
  (span : Span)

include avoids

theorem avoids_all (nodes : List Node) : Avoids (all ev s nodes) := by
  induction nodes with
  | nil => exact .pure
  | cons node rest ih => exact (avoids node s).bind fun _ => ih.bind fun _ => .pure

theorem avoids_body (nodes : List Node) (result : Value) : Avoids (body ev s result nodes) := by
  induction nodes generalizing result with
  | nil => exact .pure
  | cons node rest ih =>
    refine (avoids node s).bind fun value => ?_
    split
    · exact .pure
    · exact ih _

theorem avoids_program (nodes : List Node) (result : Value) :
    Avoids (program ev s result nodes) := by
  induction nodes generalizing result with
  | nil => exact .pure
  | cons node rest ih =>
    refine (avoids node s).bind fun value => ?_
    split
    · exact .fail rfl
    · exact ih _

theorem avoids_declaration (name : Bytes) (constant : Bool) (value : Node) :
    Avoids (declaration ev s span name constant value) := by
  have stored (found : Value) :
      Avoids (declare s name found constant span >>= fun _ => Pure.pure found) :=
    avoids_updateStore.bind fun _ => .pure
  simp only [declaration]
  split
  · exact stored .null
  · exact (avoids value s).bind stored

theorem avoids_assignment (target value : Node) :
    Avoids (assignment ev s span target value) := by
  unfold assignment
  split
  · exact (avoids value s).bind fun _ => avoids_updateStore.bind fun _ => .pure
  · exact .fail rfl

theorem avoids_fields (made : Fields Value) (properties : List Property) :
    Avoids (fields ev s made properties) := by
  induction properties generalizing made with
  | nil => exact .pure
  | cons entry rest ih =>
    obtain ⟨span, key, value⟩ := entry
    simp only [fields]
    split
    · exact avoids_lookup.bind fun _ => ih _
    · exact (avoids value s).bind fun _ => ih _

theorem avoids_operation {family : Family} {operator : Kind} (known : operator ∈ family.operators)
    (left right : Node) : Avoids (operation ev s span family operator left right) := by
  refine (avoids left s).bind fun a => (avoids right s).bind fun b => ?_
  split
  · exact .pure
  next failed => exact .fail (Value.operate_known known failed)

theorem avoids_choice (otherwise : Option (List Node)) (branches : List Branch) :
    Avoids (choice ev s otherwise branches) := by
  induction branches with
  | nil => exact avoids_body avoids s _ _
  | cons branch rest ih =>
    obtain ⟨span, condition, statements⟩ := branch
    refine (avoids condition s).bind fun value => ?_
    split
    · exact avoids_body avoids s _ _
    · exact ih
    · exact .fail rfl

theorem avoids_apply (limit : Nat) (callee : Value) (arguments : List Value) :
    Avoids (apply ev limit callee arguments span) := by
  unfold apply
  split
  · exact avoids_native
  · exact avoids_callScope.bind fun s => (avoids_body avoids s _ _).bind fun _ => .pure
  · exact avoids_callScope.bind fun s => avoids _ s
  · exact .fail rfl

theorem avoids_call (limit : Nat) (callee : Node) (arguments : List Node) :
    Avoids (call ev limit s span callee arguments) := by
  refine (avoids_all avoids s arguments).bind fun values => ?_
  refine (avoids callee s).bind fun function => ?_
  exact avoids_apply avoids span limit function values

theorem avoids_memberKey {property : Node} {computed : Bool}
    (named : (computed || property.isName) = true) :
    Avoids (memberKey ev s property computed) := by
  cases computed with
  | true => exact avoids property s
  | false =>
    cases property with
    | name => exact .pure
    | _ => cases named

theorem avoids_member (object : Node) {property : Node} {computed : Bool}
    (named : (computed || property.isName) = true) :
    Avoids (member ev s span object property computed) := by
  refine (avoids object s).bind fun collection => ?_
  refine (avoids_memberKey avoids s named).bind fun key => ?_
  -- The key is known, and what is left can go wrong only for what the collection is.
  repeat' split
  all_goals first
    | exact .pure
    | exact .fail rfl

/-- A step at a formed node fails with an internal fault only if a part of it does. -/
theorem avoids_step (limit : Nat) {node : Node} (formed : node.formed = true) :
    Avoids (step ev limit node s) := by
  -- That no part is left out is of no use here: one that is missing would be evaluated to null.
  have meant : node.meaningful = true := (Bool.and_eq_true_iff.mp formed).1
  cases node with
  | missing => exact .pure
  | null | unknown => cases meant
  | number | text => exact .pure
  | name => exact avoids_lookup
  | program => exact avoids_program avoids s _ _
  | declare => exact avoids_declaration avoids s _ _ _ _
  | function => exact avoids_fresh.bind fun _ => avoids_updateStore.bind fun _ => .pure
  | lambda => exact avoids_fresh.bind fun _ => .pure
  | choice => exact avoids_choice avoids s _ _
  | ret span value => exact (avoids value s).bind fun _ => avoids_fresh.bind fun _ => .pure
  | del => exact avoids_updateStore.bind fun _ => .pure
  | raise => exact .throw rfl
  | assign => exact avoids_assignment avoids s _ _ _
  | member => exact avoids_member avoids s _ _ meant
  | call => exact avoids_call avoids s _ limit _ _
  | operation => exact avoids_operation avoids s _ (List.contains_iff_mem.mp meant) _ _
  | array => exact (avoids_all avoids s _).bind fun _ => avoids_fresh.bind fun _ => .pure
  | object => exact (avoids_fields avoids s _ _).bind fun _ => avoids_fresh.bind fun _ => .pure

end

/-- Evaluation that gives up at a node that is not formed does not get to an internal fault, on
whatever machine and tree. -/
theorem avoids_patched (depth : Nat) (node : Node) (s : ScopeId) :
    Avoids (patched Node.formed (fun _ _ _ => throw .exhausted) depth node s) := by
  induction depth generalizing node s with
  | zero => exact .throw rfl
  | succ depth ih =>
    rw [patched]
    split
    next formed => exact avoids_step ih s depth formed
    next => exact .throw rfl

end Eval

theorem Machine.evaluateAll_avoids {ev : Nat → Node → ScopeId → Eval Value}
    (avoids : ∀ depth node s, Eval.Avoids (ev depth node s)) {machine : Machine}
    {programs : List (Nat × Node)} {failure : Failure}
    (failed : .failed failure ∈ (machine.evaluateAll ev programs).1) :
    failure.internal = false := by
  -- Every program starts in the machine that the last one left, whatever became of that one.
  induction programs generalizing machine with
  | nil => cases failed
  | cons entry rest ih =>
    obtain ⟨depth, program⟩ := entry
    rcases List.mem_cons.mp failed with here | later
    · have harmless := avoids depth program Store.globalScope machine
      cases ended : ev depth program Store.globalScope machine with
      | ok value last => simp [ended] at here
      | error e last =>
        rw [ended] at harmless
        obtain rfl : failure = e := by simpa [ended, settle] using here
        exact harmless
    · exact ih later

/-- Programs that parse are formed throughout. Run one after another, none of them fails with an
internal fault or gets to a node that is not formed: whatever evaluation would do there, the
outcomes and the last machine are the same. In particular, no run compares by `and`, `or` or `xor`,
and none combines by `is`. -/
theorem internal_faults_unreached {programs : List (Nat × Node)}
    (parsed : ∀ entry ∈ programs, ∃ tokens, Program.parse tokens = .ok entry.2) :
    (∀ entry ∈ programs, entry.2.Whole) ∧
      (∀ failure, .failed failure ∈ (Machine.initial.evaluateAll eval programs).1 →
        failure.internal = false) ∧
      ∀ other, Machine.initial.evaluateAll (Eval.patched Node.formed other) programs =
        Machine.initial.evaluateAll eval programs := by
  have whole : ∀ entry ∈ programs, entry.2.Whole := by
    intro entry member
    obtain ⟨tokens, read⟩ := parsed entry member
    exact whole_of_parse read
  have held : Machine.initial.store.All (Value.Within (Node.formed · = true)) :=
    .initial .null .bool .native
  have same (other : Nat → Node → ScopeId → Eval Value) :=
    Machine.evaluateAll_patched other held fun entry member => (whole entry member).2
  refine ⟨whole, fun failure failed => ?_, same⟩
  -- Where evaluation gives up at the other nodes, no internal fault can come from them.
  rw [← same fun _ _ _ => throw .exhausted] at failed
  exact Machine.evaluateAll_avoids Eval.avoids_patched failed

/-- The programs `! f = lambda |x| => (x.y == x)` and `f(true and false)`. The second one fails:
what the function is called with has no members. -/
def fieldOfBool : List (Nat × Node) :=
  let place (start stop : Int) : Span := ⟨⟨start, 1, start + 1⟩, ⟨stop, 1, stop + 1⟩⟩
  let field := .member (place 21 24) (.name (place 21 22) (utf8 "x"))
    (.name (place 23 24) (utf8 "y")) false
  let compared := .operation (place 21 29) .comparison (.fused .eq) field
    (.name (place 28 29) (utf8 "x"))
  let combined := .operation (place 2 16) .logical (.keyword .and)
    (.name (place 2 6) (utf8 "true")) (.name (place 11 16) (utf8 "false"))
  [(4, .program (place 0 30)
      [.declare (place 0 30) (utf8 "f") true (.lambda (place 6 30) [utf8 "x"] compared)]),
    (6, .program (place 0 17) [.call (place 0 17) (.name (place 0 1) (utf8 "f")) [combined]])]

set_option maxRecDepth 4096 in
theorem fieldOfBool_fails_harmlessly :
    .failed (.runtime (.noMembers "bool") ⟨⟨21, 1, 22⟩, ⟨24, 1, 25⟩⟩) ∈
        (Machine.initial.evaluateAll eval fieldOfBool).1 ∧
      (RuntimeFault.noMembers "bool").internal = false ∧
      Machine.initial.evaluateAll (Eval.patched Node.formed fun _ _ _ => throw .exhausted)
          fieldOfBool =
        Machine.initial.evaluateAll eval fieldOfBool := by
  have parsed : ∀ entry ∈ fieldOfBool, ∃ tokens, Program.parse tokens = .ok entry.2 := by
    refine List.forall_mem_cons.mpr ⟨?_, List.forall_mem_singleton.mpr ?_⟩
    · exact ⟨(scan (utf8 "! f = lambda |x| => (x.y == x)")).tokens, by cbv⟩
    · exact ⟨(scan (utf8 "f(true and false)")).tokens, by cbv⟩
  have second : (Machine.initial.evaluateAll eval fieldOfBool).1[1]? =
      some (.failed (.runtime (.noMembers "bool") ⟨⟨21, 1, 22⟩, ⟨24, 1, 25⟩⟩)) := by cbv
  have failed := List.mem_of_getElem? second
  obtain ⟨-, harmless, same⟩ := internal_faults_unreached parsed
  exact ⟨failed, harmless _ failed, same _⟩

end Tide
