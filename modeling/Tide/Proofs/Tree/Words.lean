import Tide.Tree.Format

/-!
# The words of a tree

What the text of a tree says once it is cut into tokens, blanks and line feeds left out. A word is a
token without its place; an operator of two characters is one word, because its two tokens always
touch. The words stand between the text and the grammar: the text is cut into them, and they are
read back as the tree.

There is one text that is not cut as it is meant to be. A number takes up the point behind it, so
the member of a number is a number that ends with a point, and then a name. `Node.pointed` lists
the objects in front of points, by which such trees are told apart.
-/
namespace Tide

structure Word where
  kind : Kind
  lexeme : Bytes
deriving DecidableEq, Repr

namespace Word

/-- A keyword, a symbol or an operator, which is always written in the same way. -/
def fixed (kind : Kind) : Word := ⟨kind, kind.render⟩

abbrev mark (s : Symbol) : Word := fixed (.symbol s)

abbrev key (k : Keyword) : Word := fixed (.keyword k)

def ident (name : Bytes) : Word := ⟨.ident, name⟩

def text (value : Bytes) : Word := ⟨.string, value⟩

/-- The end of the text. -/
def last : Word := ⟨.eof, []⟩

def digits (run : Bytes) : Word := ⟨if '.'.toUInt8 ∈ run then .float else .number, run⟩

/-- The sign of a number is a word of its own. -/
def number : Bytes → List Word
  | [] => []
  | b :: run => if b = '-'.toUInt8 then [mark .minus, digits run] else [digits (b :: run)]

/-- Lists of words with commas between them. -/
def list (parts : List (List Word)) : List Word := List.intercalate [mark .comma] parts

def params (names : List Bytes) : List Word :=
  mark .pipe :: list (names.map fun name => [ident name]) ++ [mark .pipe]

def body (lines : List Word) : List Word := mark .lparen :: lines ++ [mark .rparen]

def parenthesize (node : Node) (words : List Word) : List Word :=
  if Format.isAtomic node then words else body words

def line (node : Node) (words : List Word) : List Word :=
  words ++ if Format.isBlock node then [] else [mark .semicolon]

theorem intercalate_cons (separator : Word) (first : List Word) (rest : List (List Word)) :
    List.intercalate [separator] (first :: rest) = first ++ rest.flatMap (separator :: ·) := by
  induction rest generalizing first with
  | nil => simp [List.intercalate]
  | cons second rest ih =>
    rw [List.intercalate_cons_cons, ih]
    simp

/-- The object in front of a point, and the point. -/
def point (object : Node) (words : List Word) : List Word :=
  match object with
  | .number _ value _ => number (Number.render value ++ utf8 ".")
  | _ => parenthesize object words ++ [mark .dot]

end Word

mutual

def Node.words : Node → List Word
  | .declare _ name constant value =>
    .mark (if constant then .bang else .question) :: .ident name ::
      (if value.isMissing then [] else .mark .assign :: Node.words value)
  | .function _ name names statements =>
    .key .fn :: .ident name :: (Word.params names ++ Word.body (lineWords statements))
  | .lambda _ names value =>
    .key .lambda :: (Word.params names ++ .fixed (.fused .fatArrow) :: Node.words value)
  | .choice _ branches otherwise =>
    List.intercalate [.key .else_] (branchWords branches) ++ otherwiseWords otherwise
  | .ret _ value => .key .return_ :: Node.words value
  | .del _ name => [.key .del, .ident name]
  | .raise _ message => [.key .raise, .text message]
  | .assign _ target value =>
    Word.parenthesize target (Node.words target) ++ .mark .assign :: Node.words value
  | .member _ object property true =>
    Word.parenthesize object (Node.words object) ++
      .mark .lbracket :: (Node.words property ++ [.mark .rbracket])
  | .member _ object property false =>
    Word.point object (Node.words object) ++ Node.words property
  | .call _ callee arguments =>
    Word.parenthesize callee (Node.words callee) ++
      .mark .lparen :: (Word.list (nodeWords arguments) ++ [.mark .rparen])
  | .operation _ _ operator left right =>
    Word.parenthesize left (Node.words left) ++
      .fixed operator :: Word.parenthesize right (Node.words right)
  | .name _ name => [.ident name]
  | .number _ value _ => Word.number (Number.render value)
  | .text _ value _ => [.text value]
  | .array _ elements => .mark .lbracket :: (Word.list (nodeWords elements) ++ [.mark .rbracket])
  | .object _ entries => .mark .lbrace :: (Word.list (propertyWords entries) ++ [.mark .rbrace])
  | .null _ => [.ident (utf8 "null")]
  | .missing | .program .. | .unknown _ => []

def nodeWords : List Node → List (List Word)
  | [] => []
  | first :: rest => Node.words first :: nodeWords rest

def lineWords : List Node → List Word
  | [] => []
  | first :: rest => Word.line first (Node.words first) ++ lineWords rest

def branchWords : List Branch → List (List Word)
  | [] => []
  | .mk _ condition statements :: rest =>
    (.key .if_ :: .mark .lbrace ::
      (Node.words condition ++ .mark .rbrace :: Word.body (lineWords statements))) ::
      branchWords rest

def otherwiseWords : Option (List Node) → List Word
  | none => []
  | some statements => .key .else_ :: Word.body (lineWords statements)

def propertyWords : List Property → List (List Word)
  | [] => []
  | .mk _ key value :: rest =>
    (.ident key :: (if value.isMissing then [] else .mark .colon :: Node.words value)) ::
      propertyWords rest

end

mutual

/-- The objects in front of a point. -/
def Node.pointed : Node → List Node
  | .member _ object property computed =>
    (if computed then [] else [object]) ++ (Node.pointed object ++ Node.pointed property)
  | .program _ body | .function _ _ _ body => pointedAll body
  | .declare _ _ _ value | .lambda _ _ value | .ret _ value => Node.pointed value
  | .choice _ branches otherwise => pointedBranches branches ++ pointedOtherwise otherwise
  | .assign _ left right | .operation _ _ _ left right => Node.pointed left ++ Node.pointed right
  | .call _ callee arguments => Node.pointed callee ++ pointedAll arguments
  | .array _ elements => pointedAll elements
  | .object _ entries => pointedProperties entries
  | .missing | .del .. | .raise .. | .name .. | .number .. | .text .. | .null _ | .unknown _ => []

def pointedAll : List Node → List Node
  | [] => []
  | first :: rest => Node.pointed first ++ pointedAll rest

def pointedBranches : List Branch → List Node
  | [] => []
  | .mk _ condition body :: rest =>
    Node.pointed condition ++ pointedAll body ++ pointedBranches rest

def pointedOtherwise : Option (List Node) → List Node
  | none => []
  | some body => pointedAll body

def pointedProperties : List Property → List Node
  | [] => []
  | .mk _ _ value :: rest => Node.pointed value ++ pointedProperties rest

end

def Node.isNumber : Node → Bool
  | .number .. => true
  | _ => false

theorem Word.point_of_noNumber {object : Node} (noNumber : object.isNumber = false)
    (words : List Word) :
    Word.point object words = Word.parenthesize object words ++ [.mark .dot] := by
  cases object <;> first | rfl | simp [Node.isNumber] at noNumber

/-- No number has a member. -/
def Node.Legible (node : Node) : Prop := ∀ object ∈ node.pointed, object.isNumber = false

/-! ### Lists of parts, in terms of their elements -/

def Branch.words : Branch → List Word
  | .mk _ condition statements =>
    .key .if_ :: .mark .lbrace ::
      (condition.words ++ .mark .rbrace :: Word.body (lineWords statements))

def Property.words : Property → List Word
  | .mk _ key value =>
    .ident key :: if value.isMissing then [] else .mark .colon :: value.words

@[simp] theorem nodeWords_eq (nodes : List Node) : nodeWords nodes = nodes.map Node.words := by
  induction nodes with
  | nil => rfl
  | cons first rest ih => simp [nodeWords, ih]

@[simp] theorem lineWords_eq (nodes : List Node) :
    lineWords nodes = nodes.flatMap fun node => Word.line node node.words := by
  induction nodes with
  | nil => rfl
  | cons first rest ih => simp [lineWords, ih]

@[simp] theorem branchWords_eq (branches : List Branch) :
    branchWords branches = branches.map Branch.words := by
  induction branches with
  | nil => rfl
  | cons branch rest ih =>
    obtain ⟨span, condition, statements⟩ := branch
    simp [branchWords, Branch.words, ih]

@[simp] theorem propertyWords_eq (entries : List Property) :
    propertyWords entries = entries.map Property.words := by
  induction entries with
  | nil => rfl
  | cons entry rest ih =>
    obtain ⟨span, key, value⟩ := entry
    simp [propertyWords, Property.words, ih]

@[simp] theorem pointedAll_eq (nodes : List Node) : pointedAll nodes = nodes.flatMap Node.pointed := by
  induction nodes with
  | nil => rfl
  | cons first rest ih => simp [pointedAll, ih]

@[simp] theorem pointedBranches_eq (branches : List Branch) :
    pointedBranches branches = branches.flatMap fun branch =>
      branch.condition.pointed ++ branch.body.flatMap Node.pointed := by
  induction branches with
  | nil => rfl
  | cons branch rest ih =>
    obtain ⟨span, condition, body⟩ := branch
    simp [pointedBranches, Branch.condition, Branch.body, ih]

@[simp] theorem pointedOtherwise_eq (otherwise : Option (List Node)) :
    pointedOtherwise otherwise = (otherwise.getD []).flatMap Node.pointed := by
  cases otherwise <;> simp [pointedOtherwise]

@[simp] theorem pointedProperties_eq (entries : List Property) :
    pointedProperties entries = entries.flatMap fun entry => entry.value.pointed := by
  induction entries with
  | nil => rfl
  | cons entry rest ih =>
    obtain ⟨span, key, value⟩ := entry
    simp [pointedProperties, Property.value, ih]

/-! ### Legible trees, in terms of their parts -/

namespace Node

theorem legible_flatMap {α : Type} {parts : List α} {inside : α → List Node} :
    (∀ object ∈ parts.flatMap inside, object.isNumber = false) ↔
      ∀ part ∈ parts, ∀ object ∈ inside part, object.isNumber = false := by
  simp only [List.mem_flatMap]
  exact ⟨fun all part member object found => all object ⟨part, member, found⟩,
    fun all object ⟨part, inParts, found⟩ => all part inParts object found⟩

theorem legible_append {nodes more : List Node} :
    (∀ object ∈ nodes ++ more, object.isNumber = false) ↔
      (∀ object ∈ nodes, object.isNumber = false) ∧ ∀ object ∈ more, object.isNumber = false :=
  List.forall_mem_append

theorem legible_all {nodes : List Node} :
    (∀ object ∈ pointedAll nodes, object.isNumber = false) ↔ ∀ node ∈ nodes, node.Legible := by
  rw [pointedAll_eq]
  exact legible_flatMap

@[simp] theorem legible_program {span : Span} {body : List Node} :
    (Node.program span body).Legible ↔ ∀ node ∈ body, node.Legible := legible_all

@[simp] theorem legible_declare {span : Span} {name : Bytes} {constant : Bool} {value : Node} :
    (Node.declare span name constant value).Legible ↔ value.Legible := Iff.rfl

@[simp] theorem legible_function {span : Span} {name : Bytes} {params : List Bytes}
    {body : List Node} :
    (Node.function span name params body).Legible ↔ ∀ node ∈ body, node.Legible := legible_all

@[simp] theorem legible_lambda {span : Span} {params : List Bytes} {value : Node} :
    (Node.lambda span params value).Legible ↔ value.Legible := Iff.rfl

@[simp] theorem legible_ret {span : Span} {value : Node} :
    (Node.ret span value).Legible ↔ value.Legible := Iff.rfl

@[simp] theorem legible_choice {span : Span} {branches : List Branch}
    {otherwise : Option (List Node)} :
    (Node.choice span branches otherwise).Legible ↔
      (∀ branch ∈ branches, branch.condition.Legible ∧ ∀ node ∈ branch.body, node.Legible) ∧
        ∀ node ∈ otherwise.getD [], node.Legible := by
  refine legible_append.trans ?_
  rw [pointedBranches_eq, pointedOtherwise_eq, legible_flatMap, legible_flatMap]
  simp only [legible_append, legible_flatMap]
  rfl

@[simp] theorem legible_assign {span : Span} {target value : Node} :
    (Node.assign span target value).Legible ↔ target.Legible ∧ value.Legible := legible_append

@[simp] theorem legible_operation {span : Span} {family : Family} {operator : Kind}
    {left right : Node} :
    (Node.operation span family operator left right).Legible ↔ left.Legible ∧ right.Legible :=
  legible_append

@[simp] theorem legible_call {span : Span} {callee : Node} {arguments : List Node} :
    (Node.call span callee arguments).Legible ↔
      callee.Legible ∧ ∀ node ∈ arguments, node.Legible :=
  legible_append.trans (and_congr_right fun _ => legible_all)

@[simp] theorem legible_member {span : Span} {object property : Node} {computed : Bool} :
    (Node.member span object property computed).Legible ↔
      (computed = false → object.isNumber = false) ∧ object.Legible ∧ property.Legible := by
  refine legible_append.trans (and_congr ?_ legible_append)
  cases computed <;> simp

@[simp] theorem legible_array {span : Span} {elements : List Node} :
    (Node.array span elements).Legible ↔ ∀ node ∈ elements, node.Legible := legible_all

@[simp] theorem legible_object {span : Span} {entries : List Property} :
    (Node.object span entries).Legible ↔ ∀ entry ∈ entries, entry.value.Legible := by
  change (∀ object ∈ pointedProperties entries, object.isNumber = false) ↔ _
  rw [pointedProperties_eq]
  exact legible_flatMap

end Node
end Tide
