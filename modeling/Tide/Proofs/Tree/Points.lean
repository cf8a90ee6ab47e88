import Tide.Proofs.Tree.Written

/-!
# The points in the text of a tree

Every object in front of a point has left its point in the words of the tree, as a word of its own
or, behind a number, at the end of the number. Points that are words and points in all are counted
together: `Word.isPoint false` knows the former only, `Word.isPoint true` both.
-/
namespace Tide

open Grammar

namespace Word

def isPoint (all : Bool) (w : Word) : Bool :=
  w.kind = .symbol .dot || all && w.kind.isNumeric && w.lexeme.getLast? = some '.'.toUInt8

def points (all : Bool) (words : List Word) : Nat := words.countP (isPoint all)

variable {all : Bool}

@[simp] theorem points_nil : points all [] = 0 := rfl

@[simp] theorem points_append (words more : List Word) :
    points all (words ++ more) = points all words + points all more :=
  List.countP_append

theorem points_cons (w : Word) (words : List Word) :
    points all (w :: words) = points all words + if w.isPoint all then 1 else 0 :=
  List.countP_cons

@[simp] theorem points_mark {symbol : Symbol} (other : symbol ≠ .dot) (words : List Word) :
    points all (mark symbol :: words) = points all words := by
  simp [points_cons, isPoint, fixed, Kind.isNumeric, other]

@[simp] theorem points_key (k : Keyword) (words : List Word) :
    points all (key k :: words) = points all words := by
  simp [points_cons, isPoint, fixed, Kind.isNumeric]

@[simp] theorem points_pair (operator : Fused) (words : List Word) :
    points all (fixed (.fused operator) :: words) = points all words := by
  simp [points_cons, isPoint, fixed, Kind.isNumeric]

theorem points_operator {family : Family} {operator : Kind}
    (belongs : isOperatorOf family operator = true) (words : List Word) :
    points all (fixed operator :: words) = points all words := by
  cases operator with
  | symbol symbol =>
    refine points_mark ?_ words
    rintro rfl
    cases family <;> simp [isOperatorOf, isAdditive, isMultiplicative, isComparison, isLogical]
      at belongs
  | keyword k => exact points_key k words
  | fused operator => exact points_pair operator words
  | _ => cases family <;> simp [isOperatorOf, isAdditive, isMultiplicative, isComparison,
      isLogical] at belongs

@[simp] theorem points_ident (name : Bytes) (words : List Word) :
    points all (ident name :: words) = points all words := by
  simp [points_cons, isPoint, ident, Kind.isNumeric]

@[simp] theorem points_text (value : Bytes) (words : List Word) :
    points all (text value :: words) = points all words := by
  simp [points_cons, isPoint, text, Kind.isNumeric]

@[simp] theorem points_dot : points all [mark .dot] = 1 := by
  simp [points_cons, isPoint, fixed]

theorem points_digits (run : Bytes) :
    points all [digits run] = if all && run.getLast? = some '.'.toUInt8 then 1 else 0 := by
  simp only [points_cons, isPoint, digits]
  split <;> simp [Kind.isNumeric]

theorem points_intercalate {separator : Word} (noPoint : separator.isPoint all = false)
    (parts : List (List Word)) :
    points all (List.intercalate [separator] parts) = (parts.map (points all)).sum := by
  cases parts with
  | nil => rfl
  | cons first rest =>
    rw [intercalate_cons]
    simp only [points_append, List.map_cons, List.sum_cons]
    congr 1
    induction rest with
    | nil => rfl
    | cons second rest ih => simp [points_cons, noPoint, ih]

@[simp] theorem points_list (parts : List (List Word)) :
    points all (list parts) = (parts.map (points all)).sum :=
  points_intercalate (by simp [isPoint, fixed, Kind.isNumeric]) parts

@[simp] theorem points_params (names : List Bytes) : points all (params names) = 0 := by
  simp [params, Function.comp_def]

@[simp] theorem points_body (lines : List Word) : points all (body lines) = points all lines := by
  simp [body]

@[simp] theorem points_parenthesize (node : Node) (words : List Word) :
    points all (parenthesize node words) = points all words := by
  unfold parenthesize
  split <;> simp

@[simp] theorem points_line (node : Node) (words : List Word) :
    points all (line node words) = points all words := by
  unfold line
  split <;> simp

/-- A number that is written has no point at its end, unless one is put there. -/
theorem points_number {x : Float} (finite : Number.Finite x) :
    points all (number (Number.render x)) = 0 ∧
      points all (number (Number.render x ++ utf8 ".")) = if all then 1 else 0 := by
  obtain ⟨sign, b, run, signed, digit, -, noPoint, text, -⟩ := Number.render_spec finite
  have last : (b :: run ++ utf8 ".").getLast? = some '.'.toUInt8 := by
    rw [List.getLast?_append]
    rfl
  rw [text]
  obtain rfl | rfl := signed
  · have noSign : b ≠ '-'.toUInt8 :=
      Scan.ne_of_isRun (Scan.isRun_of_isDigit digit) (by decide)
    simp only [List.nil_append, List.cons_append] at last ⊢
    simp [number, noSign, points_digits, noPoint, last]
  · simp only [List.cons_append] at last ⊢
    simp [number, points_digits, noPoint, last]

end Word

/-- How many of the objects there are, with or without the numbers. -/
def objects (all : Bool) (nodes : List Node) : Nat :=
  nodes.countP fun object => all || !object.isNumber

section

variable {all : Bool}

@[simp] theorem objects_nil : objects all [] = 0 := rfl

@[simp] theorem objects_append (nodes more : List Node) :
    objects all (nodes ++ more) = objects all nodes + objects all more :=
  List.countP_append

theorem objects_cons (node : Node) (nodes : List Node) :
    objects all (node :: nodes) = objects all [node] + objects all nodes := by
  rw [← objects_append, List.singleton_append]

/-- Parts whose points are counted one by one. -/
theorem sum_points {α : Type} {parts : List α} {words : α → List Word} {inside : α → List Node}
    (each : ∀ part ∈ parts, Word.points all (words part) = objects all (inside part)) :
    (parts.map fun part => Word.points all (words part)).sum =
      objects all (parts.flatMap inside) := by
  induction parts with
  | nil => rfl
  | cons first rest ih =>
    obtain ⟨head, tail⟩ := List.forall_mem_cons.mp each
    simp [head, ih tail]

theorem points_lines {nodes : List Node}
    (each : ∀ node ∈ nodes, Word.points all node.words = objects all node.pointed) :
    Word.points all (nodes.flatMap fun node => Word.line node node.words) =
      objects all (nodes.flatMap Node.pointed) := by
  rw [← sum_points each]
  induction nodes with
  | nil => rfl
  | cons first rest ih => simp [ih fun node member => each node (List.mem_cons_of_mem _ member)]

theorem points_point {object : Node} {role : Role} (tree : Grammatical .scanned role object)
    (same : Word.points all object.words = objects all object.pointed) :
    Word.points all (Word.point object object.words) =
      objects all [object] + objects all object.pointed := by
  -- A number swallows the point behind it: there is no word for the point, and the number is an
  -- object only if all of them count.
  cases number : object.isNumber with
  | true =>
    cases object with
    | number span value width =>
      have finite : Number.Finite value := tree.finite span value width rfl
      simp [Word.point, (Word.points_number finite).2, objects, Node.pointed, number]
    | _ => simp [Node.isNumber] at number
  | false =>
    simp [Word.point_of_noNumber number, same, objects, number]
    omega

/-- The points in the words of a tree are those behind its objects. -/
theorem Grammar.Grammatical.points {role : Role} {node : Node}
    (tree : Grammatical .scanned role node) :
    Word.points all node.words = objects all node.pointed := by
  -- Words are added where they are written: those that are no points drop out by `simp`.
  induction tree with
  | @bare _ _ _ named => simp [Node.words, Node.isMissing, Node.pointed]
  | @declare _ _ _ constant value named initial ih =>
    cases constant <;> simp [Node.words, initial.isMissing_eq, Node.pointed, ih]
  | function named parameters statements ih => simp [Node.words, Node.pointed, points_lines ih]
  | ret result ih => simp [Node.words, Node.pointed, ih]
  | ofChoice whole ih => exact ih
  | ofExpression whole ih => exact ih
  | @choice _ _ branches otherwise filled conditions bodies last ihConditions ihBodies ihLast =>
    have each : ∀ branch ∈ branches, Word.points all branch.words =
        objects all (branch.condition.pointed ++ branch.body.flatMap Node.pointed) := by
      rintro ⟨span, condition, body⟩ member
      have inside := points_lines (ihBodies _ member)
      have first := ihConditions _ member
      simp only [Branch.condition, Branch.body] at inside first
      simp [Branch.words, Branch.condition, Branch.body, first, inside]
    rw [Node.words, Node.pointed, branchWords_eq, pointedBranches_eq, pointedOtherwise_eq,
      Word.points_append, Word.points_intercalate (by simp [Word.isPoint, Word.fixed,
        Kind.isNumeric]), List.map_map, Function.comp_def, sum_points each, objects_append]
    congr 1
    cases otherwise with
    | none => rfl
    | some body =>
      have inside := points_lines ihLast
      simpa [otherwiseWords] using inside
  | choiceTerm whole ih => exact ih
  | lambda parameters body ih => simp [Node.words, Node.pointed, ih]
  | del => simp [Node.words, Node.pointed]
  | raise => simp [Node.words, Node.pointed]
  | assign left right ihLeft ihRight => simp [Node.words, Node.pointed, ihLeft, ihRight]
  | property inside named ih =>
    rw [Node.words, Word.points_append, points_point inside ih]
    simp [Node.words, Node.pointed, objects_cons _ (Node.pointed _)]
  | index inside computed ih ihKey => simp [Node.words, Node.pointed, ih, ihKey]
  | call head inputs ih ihInputs =>
    simp [Node.words, Node.pointed, ih, ← sum_points ihInputs, Function.comp_def]
  | operation belongs first second ihFirst ihSecond =>
    simp [Node.words, Node.pointed, Word.points_operator belongs, ihFirst, ihSecond]
  | name => simp [Node.words, Node.pointed]
  | number finite => simp [Node.words, Node.pointed, (Word.points_number finite).1]
  | text => simp [Node.words, Node.pointed]
  | array inside ih =>
    simp [Node.words, Node.pointed, ← sum_points ih, Function.comp_def]
  | @object _ properties keys values ih =>
    have each : ∀ entry ∈ properties, Word.points all entry.words =
        objects all entry.value.pointed := by
      rintro ⟨span, key, value⟩ member
      have inside := ih _ member
      simp only [Property.value] at inside
      -- A name without a value is an entry of its own, and has no colon and no points.
      cases absent : value.isMissing with
      | true =>
        cases value <;> simp [Node.isMissing] at absent
        simp [Property.words, Property.value, Node.isMissing, Node.pointed]
      | false => simp [Property.words, Property.value, absent, inside absent]
    simp [Node.words, Node.pointed, ← sum_points each, Function.comp_def]

end

end Tide
