import Mathlib
import Tide.Number.Reading
import Tide.Token.Basic
import Tide.Tree.Node

/-!
# The leaves of a tree

Punctuation only shows how a tree is built. The other tokens bear its leaves: keywords, names, texts
and numbers. `Node.leaves` walks a tree in the order of its source, and `Token.bearers` finds the
tokens that bear a leaf, up to the first end. A number may have taken the sign in front of it along,
so each of them is given with the token in front of it.
-/
namespace Tide

inductive Leaf where
  | keyword (word : Keyword)
  | name (name : Bytes)
  | text (value : Bytes)
  | number (value : Float)

mutual

def Node.leaves : Node → List Leaf
  | .program _ body => leavesAll body
  | .declare _ name _ value => .name name :: Node.leaves value
  | .function _ name names body =>
    .keyword .fn :: .name name :: (names.map .name ++ leavesAll body)
  | .lambda _ names value => .keyword .lambda :: (names.map .name ++ Node.leaves value)
  | .choice _ [] otherwise => otherwiseLeaves otherwise
  | .choice _ (.mk _ condition body :: rest) otherwise =>
    .keyword .if_ :: (Node.leaves condition ++ leavesAll body ++ branchLeaves rest ++
      otherwiseLeaves otherwise)
  | .ret _ value => .keyword .return_ :: Node.leaves value
  | .del _ name => [.keyword .del, .name name]
  | .raise _ message => [.keyword .raise, .text message]
  | .operation _ _ (.keyword word) left right =>
    Node.leaves left ++ .keyword word :: Node.leaves right
  | .operation _ _ _ left right | .assign _ left right | .member _ left right _ =>
    Node.leaves left ++ Node.leaves right
  | .call _ callee arguments => Node.leaves callee ++ leavesAll arguments
  | .name _ name => [.name name]
  | .number _ value _ => [.number value]
  | .text _ value _ => [.text value]
  | .array _ elements => leavesAll elements
  | .object _ entries => propertyLeaves entries
  | .missing | .null _ | .unknown _ => []

def leavesAll : List Node → List Leaf
  | [] => []
  | first :: rest => Node.leaves first ++ leavesAll rest

/-- The branches behind the first one. -/
def branchLeaves : List Branch → List Leaf
  | [] => []
  | .mk _ condition body :: rest =>
    .keyword .else_ :: .keyword .if_ :: (Node.leaves condition ++ leavesAll body ++
      branchLeaves rest)

def otherwiseLeaves : Option (List Node) → List Leaf
  | none => []
  | some body => .keyword .else_ :: leavesAll body

def propertyLeaves : List Property → List Leaf
  | [] => []
  | .mk _ key value :: rest => .name key :: (Node.leaves value ++ propertyLeaves rest)

end

def Branch.leaves : Branch → List Leaf
  | .mk _ condition body => Node.leaves condition ++ leavesAll body

@[simp] theorem Node.leaves_choice (span : Span) (first : Branch) (rest : List Branch)
    (otherwise : Option (List Node)) :
    (Node.choice span (first :: rest) otherwise).leaves =
      .keyword .if_ :: (first.leaves ++ branchLeaves rest ++ otherwiseLeaves otherwise) := by
  obtain ⟨span, condition, body⟩ := first
  simp [Node.leaves, Branch.leaves]

@[simp] theorem branchLeaves_cons (first : Branch) (rest : List Branch) :
    branchLeaves (first :: rest) =
      .keyword .else_ :: .keyword .if_ :: (first.leaves ++ branchLeaves rest) := by
  obtain ⟨span, condition, body⟩ := first
  rfl

/-- The leaf of an operator, if it is a word. -/
def Kind.operatorLeaves : Kind → List Leaf
  | .keyword word => [.keyword word]
  | _ => []

@[simp] theorem Node.leaves_operation (span : Span) (family : Family) (operator : Kind)
    (left right : Node) :
    (Node.operation span family operator left right).leaves =
      left.leaves ++ (operator.operatorLeaves ++ right.leaves) := by
  cases operator <;> simp [Node.leaves, Kind.operatorLeaves]

/-! ### Tokens that bear a leaf -/

def Kind.isSign (kind : Kind) : Bool := kind = .symbol .minus || kind = .symbol .plus

def Kind.bearsLeaf : Kind → Bool
  | .keyword _ | .ident | .string | .number | .float => true
  | _ => false

/-- The tokens that bear a leaf, up to the first end, each behind the one in front of it. -/
def Token.bearers (front : Token) : List Token → List (Token × Token)
  | [] => []
  | t :: rest =>
    if t.kind = .eof then []
    else if t.kind.bearsLeaf then (front, t) :: Token.bearers t rest
    else Token.bearers t rest

/-- The leaf that a token bears. -/
inductive Leaf.BornBy (front t : Token) : Leaf → Prop where
  | keyword {word : Keyword} (kind : t.kind = .keyword word) : BornBy front t (.keyword word)
  | name (kind : t.kind = .ident) : BornBy front t (.name t.lexeme)
  | text (kind : t.kind = .string) : BornBy front t (.text t.lexeme)
  | number {value : Float} (kind : t.kind.isNumeric = true)
      (reading : Number.read? t.lexeme = some value) : BornBy front t (.number value)
  | signed {value : Float} (sign : front.kind.isSign = true) (kind : t.kind.isNumeric = true)
      (reading : Number.read? (front.lexeme ++ t.lexeme) = some value) :
      BornBy front t (.number value)

namespace Leaf.BornBy

variable {front t : Token} {leaf : Leaf}

theorem bearsLeaf (born : leaf.BornBy front t) : t.kind ≠ .eof ∧ t.kind.bearsLeaf = true := by
  cases born with
  | keyword kind | name kind | text kind => simp [kind, Kind.bearsLeaf]
  | number kind | signed sign kind =>
    obtain ⟨kind', lexeme, span⟩ := t
    cases kind' <;> simp_all [Kind.isNumeric, Kind.bearsLeaf]

/-- Without a sign in front it does not matter what stands there. -/
theorem behind (born : leaf.BornBy front t) (noSign : front.kind.isSign = false) (other : Token) :
    leaf.BornBy other t := by
  cases born with
  | keyword kind => exact .keyword kind
  | name kind => exact .name kind
  | text kind => exact .text kind
  | number kind reading => exact .number kind reading
  | signed sign => simp [noSign] at sign

end Leaf.BornBy

/-- The tokens bear these leaves, one each and in this order. -/
def Token.Bear (front : Token) (tokens : List Token) (leaves : List Leaf) : Prop :=
  (Token.bearers front tokens).Forall₂ (fun found leaf => leaf.BornBy found.1 found.2) leaves

namespace Token.Bear

variable {front t : Token} {tokens : List Token} {leaves : List Leaf}

theorem ended (kind : t.kind = .eof) : Bear front (t :: tokens) [] := by
  simp [Bear, bearers, kind]

theorem silent (inside : t.kind ≠ .eof) (silent : t.kind.bearsLeaf = false)
    (rest : Bear t tokens leaves) : Bear front (t :: tokens) leaves := by
  simpa [Bear, bearers, inside, silent] using rest

theorem leaf {leaf : Leaf} (born : leaf.BornBy front t) (rest : Bear t tokens leaves) :
    Bear front (t :: tokens) (leaf :: leaves) := by
  obtain ⟨inside, bears⟩ := born.bearsLeaf
  simpa [Bear, bearers, inside, bears] using ⟨born, rest⟩

theorem behind (bear : Bear front tokens leaves) (noSign : front.kind.isSign = false)
    (other : Token) : Bear other tokens leaves := by
  cases tokens with
  | nil => exact bear
  | cons t tokens =>
    by_cases inside : t.kind = .eof
    · simpa [Bear, bearers, inside] using bear
    by_cases bears : t.kind.bearsLeaf = true
    · simp only [Bear, bearers, inside, bears, if_true, if_false] at bear ⊢
      cases bear with
      | cons born rest => exact .cons (born.behind noSign other) rest
    · simpa [Bear, bearers, inside, bears] using bear

end Token.Bear
end Tide
