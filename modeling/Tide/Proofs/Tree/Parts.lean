import Mathlib
import Tide.Tree.Node

/-!
# The parts of a tree

A node occurs in another when it is one of its parts, or a part of a part, however deep. The same
node can stand in several places. A place is told by the way that leads to it from the root: what
the first part is to the whole, what the second is to the first, and so on.
-/
namespace Tide

/-- What a part is to the node that it stands in. -/
inductive Slot where
  | programStatement
  | functionStatement
  /-- In the body of a branch, or in the one behind the last `else`. -/
  | choiceStatement
  | condition
  | initializer
  | lambdaResult
  | returned
  | target
  | assigned
  | collection
  /-- The name behind a point. -/
  | key
  /-- The expression in brackets. -/
  | index
  | callee
  | argument
  | operand
  | element
  | field
deriving DecidableEq, Repr

namespace Node

/-- The nodes that stand directly in a node. -/
def parts : Node → List Node
  | .missing | .del .. | .raise .. | .name .. | .number .. | .text .. | .null _ | .unknown _ => []
  | .program _ body | .function _ _ _ body => body
  | .declare _ _ _ value | .lambda _ _ value | .ret _ value => [value]
  | .choice _ branches otherwise =>
    branches.flatMap (fun branch => branch.condition :: branch.body) ++ otherwise.getD []
  | .assign _ target value => [target, value]
  | .member _ collection property _ => [collection, property]
  | .call _ callee arguments => callee :: arguments
  | .operation _ _ _ left right => [left, right]
  | .array _ elements => elements
  | .object _ properties => properties.map Property.value

/-- A node occurs in itself and in every node that it stands in, however deep. -/
def Occurs (inner outer : Node) : Prop :=
  Relation.ReflTransGen (fun part node => part ∈ node.parts) inner outer

/-- The parts of a node, each with what it is there. -/
def slots : Node → List (Slot × Node)
  | .missing | .del .. | .raise .. | .name .. | .number .. | .text .. | .null _ | .unknown _ => []
  | .program _ body => body.map (.programStatement, ·)
  | .declare _ _ _ value => [(.initializer, value)]
  | .function _ _ _ body => body.map (.functionStatement, ·)
  | .lambda _ _ value => [(.lambdaResult, value)]
  | .ret _ value => [(.returned, value)]
  | .choice _ branches otherwise =>
    branches.flatMap (fun branch =>
      (.condition, branch.condition) :: branch.body.map (.choiceStatement, ·)) ++
      (otherwise.getD []).map (.choiceStatement, ·)
  | .assign _ target value => [(.target, target), (.assigned, value)]
  | .member _ collection property computed =>
    [(.collection, collection), (if computed then .index else .key, property)]
  | .call _ callee arguments => (.callee, callee) :: arguments.map (.argument, ·)
  | .operation _ _ _ left right => [(.operand, left), (.operand, right)]
  | .array _ elements => elements.map (.element, ·)
  | .object _ properties => properties.map fun entry => (.field, entry.value)

/-- The way leads from the outer node to a place where the inner one stands. -/
inductive At : Node → List Slot → Node → Prop where
  | here {node : Node} : At node [] node
  | inside {node part inner : Node} {slot : Slot} {path : List Slot}
      (stands : (slot, part) ∈ node.slots) (rest : At part path inner) :
      At node (slot :: path) inner

theorem slots_map_snd (node : Node) : node.slots.map Prod.snd = node.parts := by
  cases node <;> simp [slots, parts, List.map_flatMap, Function.comp_def]

/-- The parts are what stands in the slots. -/
theorem mem_parts_iff {node part : Node} :
    part ∈ node.parts ↔ ∃ slot, (slot, part) ∈ node.slots := by
  rw [← slots_map_snd]
  simp

theorem eq_missing {node : Node} (absent : ¬ node.isMissing = false) : node = .missing := by
  cases node with
  | missing => rfl
  | _ => exact absurd rfl absent

/-- Has the property, and so has every node that occurs in it. -/
def Every (P : Node → Prop) (node : Node) : Prop := ∀ inner, inner.Occurs node → P inner

theorem every_iff {P : Node → Prop} {node : Node} :
    node.Every P ↔ P node ∧ ∀ part ∈ node.parts, part.Every P := by
  constructor
  · intro every
    exact ⟨every node .refl, fun part direct inner occurs => every inner (occurs.tail direct)⟩
  · rintro ⟨whole, parts⟩ inner occurs
    rcases Relation.ReflTransGen.cases_tail occurs with rfl | ⟨part, occurs, direct⟩
    · exact whole
    · exact parts part direct inner occurs

end Node
end Tide
