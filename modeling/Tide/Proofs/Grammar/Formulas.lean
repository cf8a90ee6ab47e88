import Tide.Proofs.Grammar.Spelled

/-!
# Formulas

A formula is a row of atoms with operators between them: `a = b - c * d`. Its words stand in a row,
and its tree is found from the row alone. It is split at the loosest operators in it: sums and
products at the last one, so that they group from the left, and the rest at the first one. Each side
is split again, until only atoms are left. An atom in parentheses is a formula of its own, and the
parentheses leave no trace in the tree.
-/
namespace Tide

open Grammar (Level)

/-! ### Operators -/

inductive Operator where
  | assign
  | plus | minus
  | times | divide | modulo | caret | tilde
  | and | or | xor
  | lt | gt | lte | gte | eq | neq
deriving DecidableEq, Repr

namespace Operator

def kind : Operator → Kind
  | assign => .symbol .assign
  | plus => .symbol .plus
  | minus => .symbol .minus
  | times => .symbol .star
  | divide => .symbol .slash
  | modulo => .symbol .percent
  | caret => .symbol .caret
  | tilde => .symbol .tilde
  | and => .keyword .and
  | or => .keyword .or
  | xor => .keyword .xor
  | lt => .symbol .lt
  | gt => .symbol .gt
  | lte => .fused .lte
  | gte => .fused .gte
  | eq => .fused .eq
  | neq => .fused .neq

def level : Operator → Level
  | assign => .assignment
  | plus | minus => .sum
  | times | divide | modulo | caret | tilde => .product
  | and | or | xor => .logical
  | lt | gt | lte | gte | eq | neq => .comparison

/-- The tree of an operator and its operands. -/
def apply (operator : Operator) (left right : Node) : Node :=
  match operator.level with
  | .assignment => .assign .zero left right
  | .sum | .product => .operation .zero .arithmetic operator.kind left right
  | .logical => .operation .zero .logical operator.kind left right
  | .comparison => .operation .zero .comparison operator.kind left right

theorem isOperator_kind (operator : Operator) :
    operator.level.isOperator operator.kind = true := by
  cases operator <;> rfl

theorem unplaced_combine (operator : Operator) (left right : Node) :
    (operator.level.combine operator.kind left right).unplaced =
      operator.apply left.unplaced right.unplaced := by
  cases operator <;>
    simp [level, apply, Level.combine, Grammar.operation, Node.unplaced, Node.forget]

end Operator

/-! ### Rows of operands -/

/-- What stands between operators: how it is written, and what it means. -/
structure Operand where
  words : List Word
  tree : Node

inductive Row where
  | single (only : Operand)
  | chain (first : Operand) (operator : Operator) (rest : Row)

namespace Row

def first : Row → Operand
  | single only => only
  | chain first _ _ => first

def words : Row → List Word
  | single only => only.words
  | chain first operator rest => first.words ++ .fixed operator.kind :: rest.words

def operators : Row → List Operator
  | single _ => []
  | chain _ operator rest => operator :: rest.operators

/-- Two rows with an operator between them. -/
def join : Row → Operator → Row → Row
  | single only, operator, right => chain only operator right
  | chain first inner rest, operator, right => chain first inner (rest.join operator right)

@[simp] theorem words_join (operator : Operator) (left right : Row) :
    (left.join operator right).words = left.words ++ .fixed operator.kind :: right.words := by
  induction left with
  | single only => rfl
  | chain first inner rest ih => simp [join, words, ih]

@[simp] theorem operators_join (operator : Operator) (left right : Row) :
    (left.join operator right).operators = left.operators ++ operator :: right.operators := by
  induction left with
  | single only => rfl
  | chain first inner rest ih => simp [join, operators, ih]

/-- In front of the first operator of a level, and behind it. -/
def splitFirst (level : Level) : Row → Option (Row × Operator × Row)
  | single _ => none
  | chain first operator rest =>
    if operator.level = level then some (single first, operator, rest)
    else (splitFirst level rest).map fun (left, found, right) =>
      (chain first operator left, found, right)

/-- In front of the last operator of a level, and behind it. -/
def splitLast (level : Level) : Row → Option (Row × Operator × Row)
  | single _ => none
  | chain first operator rest =>
    match splitLast level rest with
    | some (left, found, right) => some (chain first operator left, found, right)
    | none => if operator.level = level then some (single first, operator, rest) else none

def splitAt (level : Level) (row : Row) : Option (Row × Operator × Row) :=
  if level.groupsLeft then row.splitLast level else row.splitFirst level

/-- The split at the loosest operators of a row. -/
def split (row : Row) : Option (Row × Operator × Row) :=
  [Level.assignment, .sum, .product, .logical, .comparison].findSome? fun level =>
    row.splitAt level

section

variable {level : Level} {row left right : Row} {operator : Operator}

theorem splitFirst_some (found : row.splitFirst level = some (left, operator, right)) :
    row = left.join operator right ∧ operator.level = level ∧
      ∀ o ∈ left.operators, o.level ≠ level := by
  -- On the row. The operators passed on the way are those of the left part.
  induction row generalizing left with
  | single only => simp [splitFirst] at found
  | chain first inner rest ih =>
    rw [splitFirst] at found
    split at found
    next here =>
      cases found
      exact ⟨rfl, here, by simp [operators]⟩
    next other =>
      obtain ⟨⟨front, _, _⟩, later, same⟩ := Option.map_eq_some_iff.mp found
      cases same
      obtain ⟨rfl, same, none⟩ := ih later
      exact ⟨rfl, same, List.forall_mem_cons.mpr ⟨other, none⟩⟩

theorem splitFirst_none (missing : row.splitFirst level = none) :
    ∀ o ∈ row.operators, o.level ≠ level := by
  induction row with
  | single only => simp [operators]
  | chain first inner rest ih =>
    rw [splitFirst] at missing
    split at missing
    next => cases missing
    next other =>
      exact List.forall_mem_cons.mpr ⟨other, ih (Option.map_eq_none_iff.mp missing)⟩

theorem splitLast_none (missing : row.splitLast level = none) :
    ∀ o ∈ row.operators, o.level ≠ level := by
  induction row with
  | single only => simp [operators]
  | chain first inner rest ih =>
    rw [splitLast] at missing
    split at missing
    next => cases missing
    next later =>
      split at missing
      next => cases missing
      next other => exact List.forall_mem_cons.mpr ⟨other, ih later⟩

theorem splitLast_some (found : row.splitLast level = some (left, operator, right)) :
    row = left.join operator right ∧ operator.level = level ∧
      ∀ o ∈ right.operators, o.level ≠ level := by
  induction row generalizing left with
  | single only => simp [splitLast] at found
  | chain first inner rest ih =>
    rw [splitLast] at found
    -- An operator further right goes first; this one counts only if there is none.
    split at found
    next later =>
      cases found
      obtain ⟨rfl, same, none⟩ := ih later
      exact ⟨rfl, same, none⟩
    next later =>
      split at found
      next here =>
        cases found
        exact ⟨rfl, here, splitLast_none later⟩
      next => cases found

theorem splitAt_some (found : row.splitAt level = some (left, operator, right)) :
    row = left.join operator right ∧ operator.level = level := by
  unfold splitAt at found
  split at found
  next =>
    obtain ⟨same, here, -⟩ := splitLast_some found
    exact ⟨same, here⟩
  next =>
    obtain ⟨same, here, -⟩ := splitFirst_some found
    exact ⟨same, here⟩

theorem split_some (found : row.split = some (left, operator, right)) :
    row = left.join operator right := by
  obtain ⟨level, -, here⟩ := List.exists_of_findSome?_eq_some found
  exact (splitAt_some here).1

/-- Where a row has no looser operators, it is split at those of a level if it has any. -/
theorem split_of_splitAt (tighter : ∀ o ∈ row.operators, level.rank ≤ o.level.rank)
    (found : row.splitAt level = some (left, operator, right)) :
    row.split = some (left, operator, right) := by
  have looser : ∀ other : Level, other.rank < level.rank → row.splitAt other = none := by
    intro other below
    cases elsewhere : row.splitAt other with
    | none => rfl
    | some parts =>
      obtain ⟨front, first, behind⟩ := parts
      obtain ⟨rfl, rfl⟩ := splitAt_some elsewhere
      have above := tighter first (by simp)
      omega
  unfold split
  -- The levels are tried from the loosest on, and the looser ones have no operators here.
  cases level with
  | assignment => simp [List.findSome?, found]
  | sum => simp [List.findSome?, found, looser .assignment (by decide)]
  | product =>
    simp [List.findSome?, found, looser .assignment (by decide), looser .sum (by decide)]
  | logical =>
    simp [List.findSome?, found, looser .assignment (by decide), looser .sum (by decide),
      looser .product (by decide)]
  | comparison =>
    simp [List.findSome?, found, looser .assignment (by decide), looser .sum (by decide),
      looser .product (by decide), looser .logical (by decide)]

end

/-- The tree of a row, by splitting it at its loosest operators. -/
def tree (row : Row) : Node :=
  match _found : row.split with
  | none => row.first.tree
  | some (left, operator, right) => operator.apply left.tree right.tree
termination_by row.operators.length
decreasing_by
  all_goals
    obtain rfl := split_some _found
    rw [operators_join, List.length_append, List.length_cons]
    omega

theorem tree_single (only : Operand) : (single only).tree = only.tree := by
  rw [tree]
  rfl

theorem tree_of_split {row left right : Row} {operator : Operator}
    (found : row.split = some (left, operator, right)) :
    row.tree = operator.apply left.tree right.tree := by
  rw [tree]
  split
  next missing => simp [missing] at found
  next again =>
    rw [found] at again
    cases again
    rfl

end Row

/-! ### Atoms and formulas -/

inductive Sign where
  | plus | minus

def Sign.symbol : Sign → Symbol
  | plus => .plus
  | minus => .minus

/-- The words of a number, with or without a sign. -/
def Sign.words (sign : Option Sign) (digits : Word) : List Word :=
  sign.toList.map (fun sign => .mark sign.symbol) ++ [digits]

/-- A number that can be read together with its sign. -/
structure Literal where
  sign : Option Sign
  digits : Word
  value : Float
  numeric : digits.kind.isNumeric = true
  reading : Number.read? ((Sign.words sign digits).flatMap Word.lexeme) = some value

namespace Literal

def words (literal : Literal) : List Word := Sign.words literal.sign literal.digits

def text (literal : Literal) : Bytes := literal.words.flatMap Word.lexeme

end Literal

mutual

inductive Atom where
  | name (name : Bytes)
  | text (value : Bytes)
  | number (literal : Literal)
  | group (inside : Formula)

/-- Atoms with operators between them. -/
inductive Formula where
  | atom (only : Atom)
  | chain (first : Atom) (operator : Operator) (rest : Formula)

end

mutual

def Atom.operand : Atom → Operand
  | .name name => ⟨[.ident name], .name .zero name⟩
  | .text value => ⟨[.text value], .text .zero value (Utf8.count value)⟩
  | .number literal =>
    ⟨literal.words, .number .zero literal.value literal.text.length⟩
  | .group inside => ⟨Word.body inside.row.words, inside.row.tree⟩

/-- The operands of a formula, in a row. -/
def Formula.row : Formula → Row
  | .atom only => .single only.operand
  | .chain first operator rest => .chain first.operand operator rest.row

end

namespace Formula

def words (formula : Formula) : List Word := formula.row.words

def tree (formula : Formula) : Node := formula.row.tree

end Formula
end Tide
