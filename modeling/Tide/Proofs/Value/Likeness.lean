import Mathlib
import Tide.Proofs.Value.Held

/-!
# Values that are alike

Two runs can be compared although their trees stand in different places, their numbers were written
in different ways and their collections were made under other numbers. A likeness says what is alike
of each. Nothing that a program can observe of a value tells it from a value like it: neither its
text nor its type, nor what the operators make of it.
-/
namespace Tide

/-- Two nodes of the same form, with parts that are alike. -/
inductive Node.Match (place : Span → Span → Prop) (width : Option Int → Option Int → Prop)
    (node : Node → Node → Prop) : Node → Node → Prop where
  | missing : Match place width node .missing .missing
  | program {p q body body'} (places : place p q) (statements : List.Forall₂ node body body') :
      Match place width node (.program p body) (.program q body')
  | declare {p q name constant value value'} (places : place p q) (initial : node value value') :
      Match place width node (.declare p name constant value) (.declare q name constant value')
  | function {p q name params body body'} (places : place p q)
      (statements : List.Forall₂ node body body') :
      Match place width node (.function p name params body) (.function q name params body')
  | lambda {p q params body body'} (places : place p q) (result : node body body') :
      Match place width node (.lambda p params body) (.lambda q params body')
  | choice {p q branches branches' otherwise otherwise'} (places : place p q)
      (conditions : List.Forall₂ (fun b c : Branch => node b.condition c.condition ∧
        List.Forall₂ node b.body c.body) branches branches')
      (last : List.Forall₂ node (otherwise.getD []) (otherwise'.getD [])) :
      Match place width node (.choice p branches otherwise) (.choice q branches' otherwise')
  | ret {p q value value'} (places : place p q) (result : node value value') :
      Match place width node (.ret p value) (.ret q value')
  | del {p q name} (places : place p q) : Match place width node (.del p name) (.del q name)
  | raise {p q message} (places : place p q) :
      Match place width node (.raise p message) (.raise q message)
  | assign {p q target target' value value'} (places : place p q) (left : node target target')
      (right : node value value') :
      Match place width node (.assign p target value) (.assign q target' value')
  | member {p q object object' property property' computed} (places : place p q)
      (inside : node object object') (key : node property property') :
      Match place width node (.member p object property computed)
        (.member q object' property' computed)
  | call {p q callee callee' arguments arguments'} (places : place p q)
      (head : node callee callee') (inputs : List.Forall₂ node arguments arguments') :
      Match place width node (.call p callee arguments) (.call q callee' arguments')
  | operation {p q family operator left left' right right'} (places : place p q)
      (first : node left left') (second : node right right') :
      Match place width node (.operation p family operator left right)
        (.operation q family operator left' right')
  | name {p q name} (places : place p q) : Match place width node (.name p name) (.name q name)
  | number {p q value w v} (places : place p q) (written : width (some w) (some v)) :
      Match place width node (.number p value w) (.number q value v)
  | text {p q value length} (places : place p q) :
      Match place width node (.text p value length) (.text q value length)
  | array {p q elements elements'} (places : place p q)
      (inside : List.Forall₂ node elements elements') :
      Match place width node (.array p elements) (.array q elements')
  | object {p q properties properties'} (places : place p q)
      (inside : List.Forall₂ (fun a b : Property => place a.span b.span ∧ a.key = b.key ∧
        node a.value b.value) properties properties') :
      Match place width node (.object p properties) (.object q properties')
  | null {p q} (places : place p q) : Match place width node (.null p) (.null q)
  | unknown {p q} (places : place p q) : Match place width node (.unknown p) (.unknown q)

/-- Two values of the same form, with parts that are alike. -/
inductive Value.Match (width : Option Int → Option Int → Prop) (identity : Nat → Nat → Prop)
    (node : Node → Node → Prop) (value : Value → Value → Prop) : Value → Value → Prop where
  | null : Match width identity node value .null .null
  | bool (b : Bool) : Match width identity node value (.bool b) (.bool b)
  | number {x w v} (written : width w v) :
      Match width identity node value (.number x w) (.number x v)
  | text {s length} : Match width identity node value (.text s length) (.text s length)
  | native (f : Native) : Match width identity node value (.native f) (.native f)
  | array {i j elements elements'} (same : identity i j)
      (inside : List.Forall₂ value elements elements') :
      Match width identity node value (.array i elements) (.array j elements')
  | object {i j fields fields'} (same : identity i j)
      (inside : List.Forall₂ (fun a b => a.1 = b.1 ∧ value a.2 b.2) fields fields') :
      Match width identity node value (.object i fields) (.object j fields')
  | function {i j name params body body' scope} (same : identity i j)
      (statements : List.Forall₂ node body body') :
      Match width identity node value (.function i name params body scope)
        (.function j name params body' scope)
  | lambda {i j params body body' scope} (same : identity i j) (result : node body body') :
      Match width identity node value (.lambda i params body scope) (.lambda j params body' scope)
  | returned {i j inner inner'} (same : identity i j) (inside : value inner inner') :
      Match width identity node value (.returned i inner) (.returned j inner')

/-- When places, widths, identities, trees and values are alike. -/
structure Likeness where
  place : Span → Span → Prop
  width : Option Int → Option Int → Prop
  identity : Nat → Nat → Prop
  node : Node → Node → Prop
  value : Value → Value → Prop
  nowhere : place .zero .zero
  computed : width none none
  oneToOne {i j k l : Nat} (first : identity i j) (second : identity k l) : i = k ↔ j = l
  node_match {a b : Node} (alike : node a b) : Node.Match place width node a b
  value_iff {a b : Value} : value a b ↔ Value.Match width identity node value a b

namespace Likeness

variable {l : Likeness} {a b c d : Value}

theorem isMissing_eq {a b : Node} (alike : l.node a b) : a.isMissing = b.isMissing := by
  cases l.node_match alike <;> rfl

theorem place_span {a b : Node} (alike : l.node a b) : l.place a.span b.span := by
  cases l.node_match alike with
  | missing => exact l.nowhere
  | _ => assumption

theorem value_null : l.value .null .null := l.value_iff.mpr .null

theorem value_text {s : Bytes} {length : Int} : l.value (.text s length) (.text s length) :=
  l.value_iff.mpr .text

theorem value_of_flat (flat : a.Flat) : l.value a a := by
  apply l.value_iff.mpr
  cases flat with
  | null => exact .null
  | bool b => exact .bool b
  | number x => exact .number l.computed

theorem typeName_eq (alike : l.value a b) : a.typeName = b.typeName := by
  cases l.value_iff.mp alike <;> rfl

/-! ### The text of values -/

theorem nested_eq (alike : l.value a b) (text : Bytes) : a.nested text = b.nested text := by
  cases l.value_iff.mp alike <;> rfl

mutual

theorem render_eq : ∀ (a b : Value), l.value a b → a.render = b.render
  | .array _ elements, b, alike => by
    cases l.value_iff.mp alike with
    | array _ inside => simp only [Value.render, renderElements_eq elements _ inside]
  | .object _ fields, b, alike => by
    cases l.value_iff.mp alike with
    | object _ inside => simp only [Value.render, renderFields_eq fields _ inside]
  | .returned _ inner, b, alike => by
    cases l.value_iff.mp alike with
    | returned _ inside => simp only [Value.render, render_eq inner _ inside]
  | .null, b, alike | .bool _, b, alike | .number .., b, alike | .text .., b, alike
  | .native _, b, alike | .function .., b, alike | .lambda .., b, alike => by
    cases l.value_iff.mp alike
    rfl

theorem renderElements_eq : ∀ (a b : List Value), List.Forall₂ l.value a b →
    Value.renderElements a = Value.renderElements b
  | [], _, .nil => rfl
  | value :: rest, _, .cons first others => by
    simp only [Value.renderElements, render_eq value _ first, nested_eq first,
      renderElements_eq rest _ others]

theorem renderFields_eq : ∀ (a b : List (Bytes × Value)),
    List.Forall₂ (fun a b => a.1 = b.1 ∧ l.value a.2 b.2) a b →
      Value.renderFields a = Value.renderFields b
  | [], _, .nil => rfl
  | (key, value) :: rest, _, .cons (b := (key', value')) first others => by
    obtain ⟨rfl, alike⟩ := first
    simp only [Value.renderFields, render_eq value _ alike, nested_eq alike,
      renderFields_eq rest _ others]

end

theorem renderAll_eq {left right : List Value} (alike : List.Forall₂ l.value left right)
    (separator : Bytes) : Value.renderAll separator left = Value.renderAll separator right := by
  have same : left.map Value.render = right.map Value.render := by
    induction alike with
    | nil => rfl
    | cons first _ ih => rw [List.map_cons, List.map_cons, render_eq _ _ first, ih]
  rw [Value.renderAll, Value.renderAll, same]

/-! ### Operators -/

theorem arithmetic_eq (first : l.value a b) (second : l.value c d) (operator : Kind) :
    Value.arithmetic operator a c = Value.arithmetic operator b d := by
  cases l.value_iff.mp first <;> cases l.value_iff.mp second <;> rfl

theorem identical_eq (first : l.value a b) (second : l.value c d) :
    Value.identical a c = Value.identical b d := by
  -- Collections and closures are identical by number, and numbers are paired one to one.
  cases l.value_iff.mp first <;> cases l.value_iff.mp second <;>
    first
    | rfl
    | exact decide_eq_decide.mpr (l.oneToOne ‹_› ‹_›)

theorem compare_eq (first : l.value a b) (second : l.value c d) (operator : Kind) :
    Value.compare operator a c = Value.compare operator b d := by
  cases l.value_iff.mp first <;> cases l.value_iff.mp second <;> rfl

theorem logical_eq (first : l.value a b) (second : l.value c d) (operator : Kind) :
    Value.logical operator a c = Value.logical operator b d := by
  unfold Value.logical
  rw [identical_eq first second, typeName_eq first, typeName_eq second]
  cases l.value_iff.mp first <;> cases l.value_iff.mp second <;> rfl

/-- Operators look at nothing in which values that are alike can differ. -/
theorem operate_eq (first : l.value a b) (second : l.value c d) (family : Family)
    (operator : Kind) : Value.operate family operator a c = Value.operate family operator b d := by
  cases family with
  | arithmetic => exact arithmetic_eq first second operator
  | comparison => exact compare_eq first second operator
  | logical => exact logical_eq first second operator

/-! ### Arguments, elements and fields -/

theorem numbers?_eq {left right : List Value} (alike : List.Forall₂ l.value left right)
    (position : Nat) : Native.numbers? position left = Native.numbers? position right := by
  induction alike generalizing position with
  | nil => rfl
  | cons first _ ih =>
    cases l.value_iff.mp first with
    | number => simp only [Native.numbers?, ih]
    | _ => rfl

theorem rangeArguments_eq {left right : List Value} (alike : List.Forall₂ l.value left right) :
    Native.rangeArguments left = Native.rangeArguments right := by
  simp only [Native.rangeArguments, numbers?_eq alike, alike.length_eq]

/-- Fields with the same keys and with values that are alike, in the same order. -/
abbrev fields (l : Likeness) : Fields Value → Fields Value → Prop :=
  List.Forall₂ fun a b => a.1 = b.1 ∧ l.value a.2 b.2

theorem fields_set {left right : Fields Value} (alike : l.fields left right) (key : Bytes)
    (given : l.value a b) : l.fields (left.set key a) (right.set key b) := by
  induction alike with
  | nil => exact .cons ⟨rfl, given⟩ .nil
  | @cons p q rest rest' first others ih =>
    obtain ⟨k, v⟩ := p
    obtain ⟨k', v'⟩ := q
    obtain ⟨rfl, same⟩ := first
    simp only [Fields.set]
    split
    · exact .cons ⟨rfl, given⟩ others
    · exact .cons ⟨rfl, same⟩ ih

theorem fields_get {left right : Fields Value} (alike : l.fields left right) (key : Bytes) :
    l.value ((left.get? key).getD .null) ((right.get? key).getD .null) := by
  induction alike with
  | nil => exact value_null
  | @cons p q rest rest' first others ih =>
    obtain ⟨k, v⟩ := p
    obtain ⟨k', v'⟩ := q
    obtain ⟨rfl, same⟩ := first
    simp only [Fields.get?]
    split
    · exact same
    · exact ih

theorem element_rel {left right : List Value} (alike : List.Forall₂ l.value left right)
    (index : Float) :
    Option.Rel l.value (Eval.element left index) (Eval.element right index) := by
  unfold Eval.element
  cases Number.toNat? index with
  | none => exact .none
  | some i =>
    simp only [Option.bind_some]
    induction alike generalizing i with
    | nil => exact .none
    | cons first _ ih =>
      cases i with
      | zero => exact .some first
      | succ i => exact ih i

/-! ### Things that are the same -/

/-- A node matches itself when its parts are like themselves. -/
theorem match_self {r : Node → Node → Prop} {node : Node}
    (parts : ∀ part ∈ node.parts, r part part) : Node.Match Eq Eq r node node := by
  have each {nodes : List Node} (inside : ∀ part ∈ nodes, part ∈ node.parts) :
      List.Forall₂ r nodes nodes :=
    List.forall₂_same.mpr fun part member => parts part (inside part member)
  -- Only nodes with lists of parts need more than their own fields.
  cases node with
  | program span body => exact .program rfl (each fun _ member => member)
  | declare span name constant value => exact .declare rfl (parts value (.head _))
  | function span name params body => exact .function rfl (each fun _ member => member)
  | lambda span params value => exact .lambda rfl (parts value (.head _))
  | choice span branches otherwise =>
    refine .choice rfl (List.forall₂_same.mpr fun branch member => ?_) (each fun part member => ?_)
    · have inside (part : Node) (direct : part ∈ branch.condition :: branch.body) :
          part ∈ (Node.choice span branches otherwise).parts :=
        List.mem_append_left _ (List.mem_flatMap.mpr ⟨branch, member, direct⟩)
      exact ⟨parts _ (inside _ (.head _)), each fun part direct => inside part (.tail _ direct)⟩
    · exact List.mem_append_right _ member
  | ret span value => exact .ret rfl (parts value (.head _))
  | assign span target value =>
    exact .assign rfl (parts target (.head _)) (parts value (.tail _ (.head _)))
  | member span object property computed =>
    exact .member rfl (parts object (.head _)) (parts property (.tail _ (.head _)))
  | call span callee arguments =>
    exact .call rfl (parts callee (.head _)) (each fun _ member => .tail _ member)
  | operation span family operator left right =>
    exact .operation rfl (parts left (.head _)) (parts right (.tail _ (.head _)))
  | array span elements => exact .array rfl (each fun _ member => member)
  | object span properties =>
    refine .object rfl (List.forall₂_same.mpr fun entry member => ⟨rfl, rfl, ?_⟩)
    exact parts _ (List.mem_map.mpr ⟨entry, member, rfl⟩)
  | _ => constructor <;> rfl

theorem match_self_value_iff {a b : Value} : a = b ↔ Value.Match Eq Eq Eq Eq a b := by
  have fields (xs ys : List (Bytes × Value)) :
      List.Forall₂ (fun a b => a.1 = b.1 ∧ a.2 = b.2) xs ys ↔ xs = ys := by
    simp only [← Prod.ext_iff, List.forall₂_eq_eq_eq]
  have lists {α : Type} {xs ys : List α} (each : List.Forall₂ Eq xs ys) : xs = ys := by
    rwa [List.forall₂_eq_eq_eq] at each
  constructor
  · rintro rfl
    cases a with
    | array i elements => exact .array rfl (List.forall₂_refl elements)
    | object i entries => exact .object rfl ((fields _ _).mpr rfl)
    | function i name params body scope => exact .function rfl (List.forall₂_refl body)
    | _ => constructor <;> rfl
  · intro alike
    cases alike with
    | number written => rw [written]
    | array same inside => rw [same, lists inside]
    | object same inside => rw [same, (fields _ _).mp inside]
    | function same statements => rw [same, lists statements]
    | lambda same result => rw [same, result]
    | returned same inside => rw [same, inside]
    | _ => rfl

/-- Each thing is like itself only. -/
def same : Likeness where
  place := Eq
  width := Eq
  identity := Eq
  node := Eq
  value := Eq
  nowhere := rfl
  computed := rfl
  oneToOne := Eq.congr
  node_match alike := alike ▸ match_self fun _ _ => rfl
  value_iff := match_self_value_iff

end Likeness
end Tide
