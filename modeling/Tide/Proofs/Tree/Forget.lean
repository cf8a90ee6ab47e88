import Tide.Tree.Format

/-!
# Trees without their places

`Node.forget` takes away where a tree was read: all spans become the empty one. What happens to the
widths of number literals is up to its first argument, so that they can be kept or dropped. Two
trees that are equal afterwards say the same thing, and they are written in the same way.
-/
namespace Tide

mutual

def Node.forget (width : Int → Int) : Node → Node
  | .missing => .missing
  | .program _ body => .program .zero (forgetAll width body)
  | .declare _ name constant value => .declare .zero name constant (Node.forget width value)
  | .function _ name params body => .function .zero name params (forgetAll width body)
  | .lambda _ params body => .lambda .zero params (Node.forget width body)
  | .choice _ branches otherwise =>
    .choice .zero (forgetBranches width branches) (forgetOtherwise width otherwise)
  | .ret _ value => .ret .zero (Node.forget width value)
  | .del _ name => .del .zero name
  | .raise _ message => .raise .zero message
  | .assign _ target value => .assign .zero (Node.forget width target) (Node.forget width value)
  | .member _ object property computed =>
    .member .zero (Node.forget width object) (Node.forget width property) computed
  | .call _ callee arguments => .call .zero (Node.forget width callee) (forgetAll width arguments)
  | .operation _ family operator left right =>
    .operation .zero family operator (Node.forget width left) (Node.forget width right)
  | .name _ name => .name .zero name
  | .number _ value written => .number .zero value (width written)
  | .text _ value length => .text .zero value length
  | .array _ elements => .array .zero (forgetAll width elements)
  | .object _ properties => .object .zero (forgetProperties width properties)
  | .null _ => .null .zero
  | .unknown _ => .unknown .zero

def forgetAll (width : Int → Int) : List Node → List Node
  | [] => []
  | node :: rest => Node.forget width node :: forgetAll width rest

def forgetBranches (width : Int → Int) : List Branch → List Branch
  | [] => []
  | .mk _ condition body :: rest =>
    .mk .zero (Node.forget width condition) (forgetAll width body) :: forgetBranches width rest

def forgetOtherwise (width : Int → Int) : Option (List Node) → Option (List Node)
  | none => none
  | some body => some (forgetAll width body)

def forgetProperties (width : Int → Int) : List Property → List Property
  | [] => []
  | .mk _ key value :: rest =>
    .mk .zero key (Node.forget width value) :: forgetProperties width rest

end

/-- Everything but the spans. -/
abbrev Node.unplaced : Node → Node := Node.forget id

/-- Everything but the spans and the widths of numbers. -/
abbrev Node.content : Node → Node := Node.forget fun _ => 0

def Branch.forget (width : Int → Int) : Branch → Branch
  | .mk _ condition body => .mk .zero (condition.forget width) (forgetAll width body)

def Property.forget (width : Int → Int) : Property → Property
  | .mk _ key value => .mk .zero key (value.forget width)

variable (width : Int → Int)

@[simp] theorem forgetAll_eq (nodes : List Node) :
    forgetAll width nodes = nodes.map (Node.forget width) := by
  induction nodes with
  | nil => rfl
  | cons node rest ih => simp [forgetAll, ih]

@[simp] theorem forgetBranches_eq (branches : List Branch) :
    forgetBranches width branches = branches.map (Branch.forget width) := by
  induction branches with
  | nil => rfl
  | cons branch rest ih =>
    obtain ⟨span, condition, body⟩ := branch
    simp [forgetBranches, Branch.forget, ih]

@[simp] theorem forgetOtherwise_eq (otherwise : Option (List Node)) :
    forgetOtherwise width otherwise = otherwise.map (List.map (Node.forget width)) := by
  cases otherwise <;> simp [forgetOtherwise]

@[simp] theorem forgetProperties_eq (properties : List Property) :
    forgetProperties width properties = properties.map (Property.forget width) := by
  induction properties with
  | nil => rfl
  | cons entry rest ih =>
    obtain ⟨span, key, value⟩ := entry
    simp [forgetProperties, Property.forget, ih]

@[simp] theorem Node.isMissing_forget (node : Node) :
    (node.forget width).isMissing = node.isMissing := by
  cases node <;> rfl

/-! ### The text of a tree depends on neither -/

namespace Format

@[simp] theorem isAtomic_forget (node : Node) : isAtomic (node.forget width) = isAtomic node := by
  cases node <;> simp only [Node.forget, isAtomic]

@[simp] theorem isBlock_forget (node : Node) : isBlock (node.forget width) = isBlock node := by
  cases node <;> simp only [Node.forget, isBlock]

theorem parenthesize_forget (n : Node) : parenthesize (n.forget width) = parenthesize n := by
  funext text
  simp [parenthesize]

theorem line_forget (depth : Nat) (n : Node) : line depth (n.forget width) = line depth n := by
  funext text
  simp [line]

mutual

theorem node_forget (depth : Nat) : (n : Node) → node depth (n.forget width) = node depth n
  | .missing => rfl
  | .program _ body => by simp only [Node.forget, node]
  | .declare _ name constant value => by
    simp only [Node.forget, node, Node.isMissing_forget, node_forget depth value]
  | .function _ name params body => by
    simp only [Node.forget, node, lines_forget (depth + 1) body]
  | .lambda _ params body => by simp only [Node.forget, node, node_forget depth body]
  | .choice _ branches otherwise => by
    simp only [Node.forget, node, conditions_forget depth branches,
      alternative_forget depth otherwise]
  | .ret _ value => by simp only [Node.forget, node, node_forget depth value]
  | .del .. | .raise .. | .name .. | .number .. | .text .. | .null _ | .unknown _ => by
    simp only [Node.forget, node]
  | .assign _ target value => by
    simp only [Node.forget, node, parenthesize_forget, node_forget depth target,
      node_forget depth value]
  | .member _ object property computed => by
    cases computed <;>
      simp only [Node.forget, node, parenthesize_forget, node_forget depth object,
        node_forget depth property]
  | .call _ callee arguments => by
    simp only [Node.forget, node, parenthesize_forget, node_forget depth callee,
      nodes_forget depth arguments]
  | .operation _ family operator left right => by
    simp only [Node.forget, node, parenthesize_forget, node_forget depth left,
      node_forget depth right]
  | .array _ elements => by simp only [Node.forget, node, nodes_forget depth elements]
  | .object _ entries => by simp only [Node.forget, node, properties_forget depth entries]

theorem nodes_forget (depth : Nat) :
    (elements : List Node) → nodes depth (forgetAll width elements) = nodes depth elements
  | [] => rfl
  | first :: rest => by
    simp only [forgetAll, nodes, node_forget depth first, nodes_forget depth rest]

theorem lines_forget (depth : Nat) :
    (statements : List Node) → lines depth (forgetAll width statements) = lines depth statements
  | [] => rfl
  | first :: rest => by
    simp only [forgetAll, lines, line_forget, node_forget depth first, lines_forget depth rest]

theorem conditions_forget (depth : Nat) : (branches : List Branch) →
    conditions depth (forgetBranches width branches) = conditions depth branches
  | [] => rfl
  | .mk _ condition body :: rest => by
    simp only [forgetBranches, conditions, node_forget depth condition,
      lines_forget (depth + 1) body, conditions_forget depth rest]

theorem alternative_forget (depth : Nat) : (otherwise : Option (List Node)) →
    alternative depth (forgetOtherwise width otherwise) = alternative depth otherwise
  | none => rfl
  | some body => by simp only [forgetOtherwise, alternative, lines_forget (depth + 1) body]

theorem properties_forget (depth : Nat) : (entries : List Property) →
    properties depth (forgetProperties width entries) = properties depth entries
  | [] => rfl
  | .mk _ key value :: rest => by
    simp only [forgetProperties, properties, Node.isMissing_forget, node_forget depth value,
      properties_forget depth rest]

end

end Format

theorem Node.format_forget (node : Node) : (node.forget width).format = node.format := by
  cases node with
  | program span statements => simp only [Node.forget, Node.format, Format.lines_forget]
  | missing => rfl
  | _ => exact Format.node_forget width 0 _

/-- Two trees that say the same are written in the same way. -/
theorem Node.format_eq_of_content_eq {node other : Node} (same : node.content = other.content) :
    node.format = other.format := by
  calc node.format = node.content.format := (Node.format_forget _ node).symm
    _ = other.content.format := by rw [same]
    _ = other.format := Node.format_forget _ other

end Tide
