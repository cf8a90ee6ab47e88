import Mathlib
import Tide.Proofs.Grammar.Trees
import Tide.Proofs.Tree.Parts

/-!
# What no program holds

A tree built by hand may have a part left out, an operator in a family that it does not belong to,
something other than a name behind a point, or a choice between nothing. Evaluation fails at some of
these and makes something of others: it compares by `and`, and combines by `is`. `Node.formed` tells
from a single node whether it is one of them. Programs that parse hold none.
-/
namespace Tide

open Grammar

/-- The operators that evaluation knows in each family. -/
def Family.operators : Family → List Kind
  | .arithmetic =>
    [.symbol .plus, .symbol .minus, .symbol .star, .symbol .slash, .symbol .percent,
      .symbol .caret, .symbol .tilde]
  | .comparison =>
    [.symbol .lt, .symbol .gt, .fused .lte, .fused .gte, .fused .eq, .fused .neq]
  | .logical => [.keyword .and, .keyword .or, .keyword .xor]

/-- Whether what stands there may be left out. -/
def Slot.optional : Slot → Bool
  | .initializer | .field => true
  | _ => false

namespace Node

def isName : Node → Bool
  | .name .. => true
  | _ => false

/-- Whether evaluation has a meaning for the node, given that it has one for its parts. -/
def meaningful : Node → Bool
  | .null _ | .unknown _ => false
  | .operation _ family operator _ _ => family.operators.contains operator
  | .member _ _ property computed => computed || property.isName
  | .choice _ branches _ => !branches.isEmpty
  | _ => true

/-- A node that has a meaning and all of its parts. -/
def formed (node : Node) : Bool :=
  node.meaningful && node.slots.all fun entry => entry.1.optional || !entry.2.isMissing

/-- Is there, and is formed throughout. -/
def Whole (node : Node) : Prop := node.isMissing = false ∧ node.Every (formed · = true)

theorem every_formed_missing : Node.missing.Every (formed · = true) :=
  every_iff.mpr ⟨rfl, by simp [parts]⟩

theorem whole_of_slots {node : Node} (present : node.isMissing = false)
    (meant : node.meaningful = true)
    (slots : ∀ slot part, (slot, part) ∈ node.slots →
      part.Whole ∨ slot.optional = true ∧ part = .missing) : node.Whole := by
  refine ⟨present, every_iff.mpr ⟨?_, ?_⟩⟩
  · have filled : (node.slots.all fun entry => entry.1.optional || !entry.2.isMissing) = true := by
      rw [List.all_eq_true]
      rintro ⟨slot, part⟩ stands
      rcases slots slot part stands with whole | ⟨optional, -⟩
      · simp [whole.1]
      · simp [optional]
    simp [formed, meant, filled]
  · intro part direct
    obtain ⟨slot, stands⟩ := mem_parts_iff.mp direct
    rcases slots slot part stands with whole | ⟨-, rfl⟩
    · exact whole.2
    · exact every_formed_missing

theorem whole_of_parts {node : Node} (present : node.isMissing = false)
    (meant : node.meaningful = true) (parts : ∀ part ∈ node.parts, part.Whole) : node.Whole := by
  exact whole_of_slots present meant fun slot part stands =>
    .inl (parts part (mem_parts_iff.mpr ⟨slot, stands⟩))

end Node

namespace Grammar

theorem mem_operators {family : Family} {operator : Kind}
    (belongs : isOperatorOf family operator = true) :
    family.operators.contains operator = true := by
  cases family <;>
    simp_all [isOperatorOf, isAdditive, isMultiplicative, isComparison, isLogical,
      Family.operators] <;> grind

/-- The grammar leaves no part out and makes no node without a meaning. -/
theorem Grammatical.whole {v : Vocabulary} {role : Role} {node : Node}
    (code : Grammatical v role node) : node.Whole := by
  induction code with
  | bare named =>
    refine Node.whole_of_slots rfl rfl fun slot part stands => ?_
    cases List.mem_singleton.mp stands
    exact .inr ⟨rfl, rfl⟩
  | declare named initial ih =>
    exact Node.whole_of_parts rfl rfl (List.forall_mem_singleton.mpr ih)
  | function named parameters statements ih => exact Node.whole_of_parts rfl rfl ih
  | ret result ih => exact Node.whole_of_parts rfl rfl (List.forall_mem_singleton.mpr ih)
  | ofChoice whole ih => exact ih
  | ofExpression whole ih => exact ih
  | choice filled conditions bodies last ihConditions ihBodies ihLast =>
    refine Node.whole_of_parts rfl (by simpa [Node.meaningful] using filled) fun part direct => ?_
    rcases List.mem_append.mp direct with direct | direct
    · obtain ⟨branch, member, direct⟩ := List.mem_flatMap.mp direct
      rcases List.mem_cons.mp direct with rfl | inside
      · exact ihConditions branch member
      · exact ihBodies branch member part inside
    · exact ihLast part direct
  | choiceTerm whole ih => exact ih
  | lambda parameters body ih =>
    exact Node.whole_of_parts rfl rfl (List.forall_mem_singleton.mpr ih)
  | del named => exact Node.whole_of_parts rfl rfl nofun
  | raise => exact Node.whole_of_parts rfl rfl nofun
  | assign left right ihLeft ihRight =>
    exact Node.whole_of_parts rfl rfl
      (List.forall_mem_cons.mpr ⟨ihLeft, List.forall_mem_singleton.mpr ihRight⟩)
  | @property _ _ keySpan key inside named ih =>
    have behind : (Node.name keySpan key).Whole := Node.whole_of_parts rfl rfl nofun
    exact Node.whole_of_parts rfl rfl
      (List.forall_mem_cons.mpr ⟨ih, List.forall_mem_singleton.mpr behind⟩)
  | index inside computed ih ihKey =>
    exact Node.whole_of_parts rfl rfl
      (List.forall_mem_cons.mpr ⟨ih, List.forall_mem_singleton.mpr ihKey⟩)
  | call head inputs ih ihInputs =>
    exact Node.whole_of_parts rfl rfl (List.forall_mem_cons.mpr ⟨ih, ihInputs⟩)
  | operation belongs first second ihFirst ihSecond =>
    exact Node.whole_of_parts rfl (mem_operators belongs)
      (List.forall_mem_cons.mpr ⟨ihFirst, List.forall_mem_singleton.mpr ihSecond⟩)
  | name named => exact Node.whole_of_parts rfl rfl nofun
  | number read => exact Node.whole_of_parts rfl rfl nofun
  | text => exact Node.whole_of_parts rfl rfl nofun
  | array inside ih => exact Node.whole_of_parts rfl rfl ih
  | object keys values ih =>
    refine Node.whole_of_slots rfl rfl fun slot part stands => ?_
    obtain ⟨entry, member, same⟩ := List.mem_map.mp stands
    cases same
    -- A property without a value is short for a look-up of its key.
    by_cases present : entry.value.isMissing = false
    · exact .inl (ih entry member present)
    · exact .inr ⟨rfl, Node.eq_missing present⟩

/-- A program that parses is formed throughout. -/
theorem whole_of_parse {tokens : List Token} {program : Node}
    (parsed : Program.parse tokens = .ok program) : program.Whole := by
  obtain ⟨span, statements, rfl, code⟩ :=
    grammatical_of_parse (v := .any) parsed fun _ _ => trivial
  exact Node.whole_of_parts rfl rfl fun statement member => (code statement member).whole

end Grammar
end Tide
