import Mathlib
import Tide.Eval.Evaluate
import Tide.Proofs.Tree.Parts

/-!
# What values carry

A value is made of collections, closures and flat values. What can be asked of every value that a
run comes across is what is asked of the code in its closures and of the scopes they were made in.
-/
namespace Tide

namespace Value

/-- Every closure in the value has the given code and was made in a given scope. -/
inductive Held (code : Node → Prop) (home : ScopeId → Prop) : Value → Prop where
  | null : Held code home .null
  | bool (b : Bool) : Held code home (.bool b)
  | number (x : Float) (written : Option Int) : Held code home (.number x written)
  | text (s : Bytes) (length : Int) : Held code home (.text s length)
  | native (f : Native) : Held code home (.native f)
  | array {identity elements} (inside : ∀ value ∈ elements, Held code home value) :
      Held code home (.array identity elements)
  | object {identity fields} (inside : ∀ entry ∈ fields, Held code home entry.2) :
      Held code home (.object identity fields)
  | function {identity name params body scope} (statements : ∀ node ∈ body, code node)
      (made : home scope) : Held code home (.function identity name params body scope)
  | lambda {identity params body scope} (result : code body) (made : home scope) :
      Held code home (.lambda identity params body scope)
  | returned {identity value} (inside : Held code home value) :
      Held code home (.returned identity value)

theorem Held.mono {code : Node → Prop} {home wider : ScopeId → Prop} {value : Value}
    (held : Held code home value) (more : ∀ s, home s → wider s) : Held code wider value := by
  induction held with
  | null => exact .null
  | bool b => exact .bool b
  | number x written => exact .number x written
  | text s length => exact .text s length
  | native f => exact .native f
  | array _ ih => exact .array ih
  | object _ ih => exact .object ih
  | function statements made => exact .function statements (more _ made)
  | lambda result made => exact .lambda result (more _ made)
  | returned _ ih => exact .returned ih

/-- A closure in the value was made in the scope. -/
inductive Captures : Value → ScopeId → Prop where
  | function {identity name params body s} : Captures (.function identity name params body s) s
  | lambda {identity params body s} : Captures (.lambda identity params body s) s
  | element {identity elements value s} (member : value ∈ elements) (inside : Captures value s) :
      Captures (.array identity elements) s
  | field {identity fields entry s} (member : entry ∈ fields) (inside : Captures entry.2 s) :
      Captures (.object identity fields) s
  | returned {identity value s} (inside : Captures value s) : Captures (.returned identity value) s

theorem Held.home_of_captures {code : Node → Prop} {home : ScopeId → Prop} {value : Value}
    (held : Held code home value) {s : ScopeId} (captured : value.Captures s) : home s := by
  induction captured with
  | function =>
    cases held with
    | function _ made => exact made
  | lambda =>
    cases held with
    | lambda _ made => exact made
  | element member _ ih =>
    cases held with
    | array inside => exact ih (inside _ member)
  | field member _ ih =>
    cases held with
    | object inside => exact ih (inside _ member)
  | returned _ ih =>
    cases held with
    | returned inside => exact ih inside

mutual

theorem held_of_captures {home : ScopeId → Prop} : ∀ value : Value,
    (∀ s, value.Captures s → home s) → Held (fun _ => True) home value
  | .null, _ => .null
  | .bool b, _ => .bool b
  | .number x written, _ => .number x written
  | .text s length, _ => .text s length
  | .native f, _ => .native f
  | .array _ elements, within =>
    .array (heldAll_of_captures elements fun _ member s captured =>
      within s (.element member captured))
  | .object _ fields, within =>
    .object (heldFields_of_captures fields fun _ member s captured =>
      within s (.field member captured))
  | .function .., within => .function (fun _ _ => trivial) (within _ .function)
  | .lambda .., within => .lambda trivial (within _ .lambda)
  | .returned _ value, within =>
    .returned (held_of_captures value fun s captured => within s (.returned captured))

theorem heldAll_of_captures {home : ScopeId → Prop} : ∀ values : List Value,
    (∀ value ∈ values, ∀ s, value.Captures s → home s) →
      ∀ value ∈ values, Held (fun _ => True) home value
  | [], _ => nofun
  | value :: rest, within =>
    List.forall_mem_cons.mpr ⟨held_of_captures value (within value List.mem_cons_self),
      heldAll_of_captures rest fun other member => within other (List.mem_cons_of_mem _ member)⟩

theorem heldFields_of_captures {home : ScopeId → Prop} : ∀ fields : List (Bytes × Value),
    (∀ entry ∈ fields, ∀ s, entry.2.Captures s → home s) →
      ∀ entry ∈ fields, Held (fun _ => True) home entry.2
  | [], _ => nofun
  | (key, value) :: rest, within =>
    List.forall_mem_cons.mpr ⟨held_of_captures value (within (key, value) List.mem_cons_self),
      heldFields_of_captures rest fun other member =>
        within other (List.mem_cons_of_mem _ member)⟩

end

/-- Where nothing is asked of code, a value is judged by the scopes it captures. -/
theorem held_iff_captures {home : ScopeId → Prop} {value : Value} :
    Held (fun _ => True) home value ↔ ∀ s, value.Captures s → home s :=
  ⟨fun held _ captured => held.home_of_captures captured, held_of_captures value⟩

/-- Computed, and made of nothing but itself. -/
inductive Flat : Value → Prop where
  | null : Flat .null
  | bool (b : Bool) : Flat (.bool b)
  | number (x : Float) : Flat (.number x none)

theorem Flat.held {value : Value} (flat : Flat value) {code : Node → Prop}
    {home : ScopeId → Prop} : Held code home value := by
  cases flat <;> constructor

theorem flat_of_operate {family : Family} {operator : Kind} {left right value : Value}
    (result : operate family operator left right = .ok value) : Flat value := by
  cases family with
  | arithmetic =>
    simp only [operate, arithmetic] at result
    split at result
    · simp only [arithmeticNumbers, divide] at result
      repeat' split at result
      all_goals cases result <;> exact .number _
    · cases result
      exact .null
  | comparison =>
    simp only [operate, compare, compareNumbers, ofEqual] at result
    repeat' split at result
    all_goals cases result <;> constructor
  | logical =>
    simp only [operate, logical] at result
    repeat' split at result
    all_goals cases result <;> exact .bool _

end Value

/-! ### Collections of values with a property -/

theorem Fields.forall_set {α : Type} {P : α → Prop} {fields : Fields α} {key : Bytes} {value : α}
    (held : ∀ entry ∈ fields, P entry.2) (given : P value) :
    ∀ entry ∈ fields.set key value, P entry.2 := by
  induction fields with
  | nil => simpa [Fields.set] using given
  | cons entry rest ih =>
    obtain ⟨first, others⟩ := List.forall_mem_cons.mp held
    rw [Fields.set]
    split
    · exact List.forall_mem_cons.mpr ⟨given, others⟩
    · exact List.forall_mem_cons.mpr ⟨first, ih others⟩

theorem Fields.getD_of_forall {α : Type} {P : α → Prop} {fields : Fields α} {key : Bytes}
    {missing : α} (held : ∀ entry ∈ fields, P entry.2) (given : P missing) :
    P ((fields.get? key).getD missing) := by
  induction fields with
  | nil => exact given
  | cons entry rest ih =>
    obtain ⟨first, others⟩ := List.forall_mem_cons.mp held
    rw [Fields.get?]
    split
    · exact first
    · exact ih others

theorem Eval.mem_of_element {elements : List Value} {index : Float} {value : Value}
    (found : element elements index = some value) : value ∈ elements := by
  obtain ⟨i, -, found⟩ := Option.bind_eq_some_iff.mp found
  exact List.mem_of_getElem? found

namespace Native

theorem flat_of_count {going : Float → Bool} {step x : Float} {rounds : Nat}
    {reached values : List Value} (held : ∀ value ∈ reached, value.Flat)
    (counted : count going step rounds x reached = some values) :
    ∀ value ∈ values, value.Flat := by
  induction rounds generalizing x reached with
  | zero => simp [count] at counted
  | succ rounds ih =>
    rw [count] at counted
    split at counted
    · exact ih (List.forall_mem_cons.mpr ⟨.number x, held⟩) counted
    · obtain rfl : reached.reverse = values := by simpa using counted
      simpa using held

theorem flat_of_rangeFrom {limit : Nat} {start stop step : Float} {values : List Value}
    (counted : rangeFrom limit start stop step = some values) : ∀ value ∈ values, value.Flat := by
  unfold rangeFrom at counted
  split at counted
  · exact flat_of_count (by simp) counted
  · split at counted
    · exact flat_of_count (by simp) counted
    · obtain rfl : [] = values := by simpa using counted
      simp

end Native

end Tide
