import Tide.Proofs.Tree.Parts
import Tide.Tree.Outline

/-!
# Outlines lose nothing

A tree of known nodes can be told from its outline: two of them with the same outline are the same
tree. The record of a node says which kind of node it is, and no two kinds share their name. The
fields of the record then give the parts, one by one. A field that is left out stands for a part
that is missing, because what a known node holds there is never written as nothing.

An operator is written by its name. No two kinds of tokens have the same one, not even among the
kinds that are just a number.
-/
namespace Tide

/-! ### Names of kinds -/

theorem utf8_injective {s t : String} (same : utf8 s = utf8 t) : s = t := by
  have encoded : s.toList.utf8Encode = t.toList.utf8Encode := by
    rw [List.utf8Encode, List.utf8Encode]
    exact congrArg List.toByteArray same
  simpa [String.toByteArray_inj] using encoded

@[simp] theorem utf8_append (s t : String) : utf8 (s ++ t) = utf8 s ++ utf8 t := by
  simp [utf8]

namespace Kind

theorem mem_all (k : Kind) : k ∈ all ∨ ∃ index, k = .unknown index := by
  cases k with
  | unknown index => exact .inr ⟨index, rfl⟩
  | keyword k => exact .inl (by cases k <;> decide)
  | symbol s => exact .inl (by cases s <;> decide)
  | fused f => exact .inl (by cases f <;> decide)
  | _ => exact .inl (by decide)

theorem nodup_render : (all.map render).Nodup := by decide +kernel

/-- The name of a kind that is just a number starts like no other. -/
theorem render_ne_unknown {k : Kind} (known : k ∈ all) (index : Int) :
    k.render ≠ (unknown index).render := by
  have other : ∀ k ∈ all, k.render.take 5 ≠ utf8 "Kind(" := by decide +kernel
  intro same
  apply other k known
  rw [same, render, name, utf8_append, utf8_append, List.append_assoc]
  exact List.take_left' (by decide)

theorem render_unknown_injective {i j : Int}
    (same : (unknown i).render = (unknown j).render) : i = j := by
  simp only [render, name, utf8_append, List.append_cancel_left_eq,
    List.append_cancel_right_eq] at same
  exact Int.repr_injective (utf8_injective same)

theorem render_injective {k k' : Kind} (same : k.render = k'.render) : k = k' := by
  rcases k.mem_all with known | ⟨i, rfl⟩ <;> rcases k'.mem_all with known' | ⟨j, rfl⟩
  · exact List.inj_on_of_nodup_map nodup_render known known' same
  · exact absurd same (render_ne_unknown known j)
  · exact absurd same.symm (render_ne_unknown known' i)
  · rw [render_unknown_injective same]

end Kind

/-! ### Names of nodes -/

/-- What a record can be the outline of. -/
inductive Tag where
  | program
  | declare
  | function
  | lambda
  | choice
  | ret
  | del
  | raise
  | assign
  | member
  | call
  | operation (family : Family)
  | name
  | number
  | text
  | array
  | object
  | null
  | unknown
deriving DecidableEq

namespace Tag

def all : List Tag :=
  [.program, .declare, .function, .lambda, .choice, .ret, .del, .raise, .assign, .member, .call,
    .operation .arithmetic, .operation .comparison, .operation .logical, .name, .number, .text,
    .array, .object, .null, .unknown]

def kindName : Tag → String
  | .program => "Program"
  | .declare => "VarDecl"
  | .function => "FuncDecl"
  | .lambda => "LambdaDecl"
  | .choice => "IfExpr"
  | .ret => "ReturnExpr"
  | .del => "DelExpr"
  | .raise => "RaiseExpr"
  | .assign => "AssignExpr"
  | .member => "MemberExpr"
  | .call => "CallExpr"
  | .operation family => family.kindName
  | .name => "Ident"
  | .number => "NumberLit"
  | .text => "StringLit"
  | .array => "ArrayLit"
  | .object => "ObjectLit"
  | .null => "NullLit"
  | .unknown => "Unknown"

theorem mem_all (tag : Tag) : tag ∈ all := by
  cases tag with
  | operation family => cases family <;> decide
  | _ => decide

theorem kindName_injective {tag other : Tag}
    (same : utf8 tag.kindName = utf8 other.kindName) : tag = other := by
  have distinct : (all.map fun tag => utf8 tag.kindName).Nodup := by decide +kernel
  exact List.inj_on_of_nodup_map distinct tag.mem_all other.mem_all same

end Tag

namespace Node

/-- Nothing is written for a node that is missing. -/
def tag? : Node → Option Tag
  | .missing => none
  | .program .. => some .program
  | .declare .. => some .declare
  | .function .. => some .function
  | .lambda .. => some .lambda
  | .choice .. => some .choice
  | .ret .. => some .ret
  | .del .. => some .del
  | .raise .. => some .raise
  | .assign .. => some .assign
  | .member .. => some .member
  | .call .. => some .call
  | .operation _ family .. => some (.operation family)
  | .name .. => some .name
  | .number .. => some .number
  | .text .. => some .text
  | .array .. => some .array
  | .object .. => some .object
  | .null _ => some .null
  | .unknown _ => some .unknown

theorem outline_kind (node : Node) :
    node.outline.get? "kind" = node.tag?.map fun tag => .text (utf8 tag.kindName) := by
  cases node with
  | choice span branches otherwise => cases otherwise <;> rfl
  | _ => rfl

theorem tag?_eq_of_outline {a b : Node} (same : a.outline = b.outline) : a.tag? = b.tag? := by
  have kinds := a.outline_kind
  rw [same, b.outline_kind] at kinds
  cases left : a.tag? <;> cases right : b.tag? <;> simp_all
  exact (Tag.kindName_injective kinds).symm

end Node

/-! ### Parts of records -/

@[simp] theorem Position.outline_inj {p q : Position} : p.outline = q.outline ↔ p = q := by
  obtain ⟨offset, line, column⟩ := p
  obtain ⟨offset', line', column'⟩ := q
  simp only [Position.outline, Datum.record.injEq, List.cons.injEq, Prod.mk.injEq,
    Datum.int.injEq, Position.mk.injEq]
  grind

@[simp] theorem Span.outline_inj {a b : Span} : a.outline = b.outline ↔ a = b := by
  obtain ⟨start, stop⟩ := a
  obtain ⟨start', stop'⟩ := b
  simp only [Span.outline, Datum.record.injEq, List.cons.injEq, Prod.mk.injEq,
    Position.outline_inj, Span.mk.injEq]
  grind

@[simp] theorem outlineNames_inj {names names' : List Bytes} :
    outlineNames names = outlineNames names' ↔ names = names' := by
  simp only [outlineNames, Datum.list.injEq]
  exact (List.map_injective_iff.2 fun _ _ => Datum.text.inj).eq_iff

@[simp] theorem Kind.render_inj {k k' : Kind} : k.render = k'.render ↔ k = k' :=
  ⟨render_injective, congrArg render⟩

def Branch.outline : Branch → Datum
  | .mk span condition body =>
    .record [("body", .list (outlineAll body)), ("condition", condition.outline),
      kindField "IfBranch", spanField span]

def Property.outline : Property → Datum
  | .mk span key value =>
    .record ([("key", .text key), kindField "Property", spanField span] ++
      (if value.isMissing then [] else [("value", value.outline)]))

theorem outlineAll_eq (nodes : List Node) : outlineAll nodes = nodes.map Node.outline := by
  induction nodes with
  | nil => rfl
  | cons node rest ih => simp [outlineAll, ih]

theorem outlineBranches_eq (branches : List Branch) :
    outlineBranches branches = branches.map Branch.outline := by
  induction branches with
  | nil => rfl
  | cons branch rest ih =>
    obtain ⟨span, condition, body⟩ := branch
    simp [outlineBranches, Branch.outline, ih]

theorem outlineProperties_eq (properties : List Property) :
    outlineProperties properties = properties.map Property.outline := by
  induction properties with
  | nil => rfl
  | cons entry rest ih =>
    obtain ⟨span, key, value⟩ := entry
    simp [outlineProperties, Property.outline, ih]

/-- Items that can be told apart make lists that can be told apart. -/
theorem eq_of_map_eq {α β : Type} {f : α → β} {xs ys : List α}
    (each : ∀ x ∈ xs, ∀ y ∈ ys, f x = f y → x = y) (same : xs.map f = ys.map f) : xs = ys := by
  induction xs generalizing ys with
  | nil => simpa using same.symm
  | cons x xs ih =>
    cases ys with
    | nil => simp at same
    | cons y ys =>
      simp only [List.map_cons, List.cons.injEq] at same
      rw [each x (by simp) y (by simp) same.1,
        ih (fun x inside y inside' => each x (by simp [inside]) y (by simp [inside'])) same.2]

/-- A part that may be left out is missing when it is. -/
theorem outline_eq_of_optional {value value' : Node}
    (same : (if value.isMissing then [] else [("value", value.outline)]) =
      if value'.isMissing then [] else [("value", value'.outline)]) :
    value.outline = value'.outline := by
  cases absent : value.isMissing <;> cases absent' : value'.isMissing <;>
    simp only [absent, absent', if_true, Bool.false_eq_true, if_false, List.cons.injEq,
      Prod.mk.injEq, true_and, and_true, reduceCtorEq] at same
  · exact same
  · obtain rfl : value = .missing := Node.eq_missing (by simp [absent])
    obtain rfl : value' = .missing := Node.eq_missing (by simp [absent'])
    rfl

theorem Branch.eq_of_outline {a b : Branch}
    (each : ∀ x ∈ a.condition :: a.body, ∀ y ∈ b.condition :: b.body, x.outline = y.outline → x = y)
    (same : a.outline = b.outline) : a = b := by
  obtain ⟨span, condition, body⟩ := a
  obtain ⟨span', condition', body'⟩ := b
  obtain ⟨bodies, conditions, rfl⟩ : body.map Node.outline = body'.map Node.outline ∧
      condition.outline = condition'.outline ∧ span = span' := by
    simpa [outline, spanField, outlineAll_eq] using same
  obtain rfl : condition = condition' := each _ (.head _) _ (.head _) conditions
  obtain rfl : body = body' :=
    eq_of_map_eq (fun x inside y inside' => each x (.tail _ inside) y (.tail _ inside')) bodies
  rfl

theorem Property.eq_of_outline {a b : Property}
    (value : a.value.outline = b.value.outline → a.value = b.value)
    (same : a.outline = b.outline) : a = b := by
  obtain ⟨span, key, inner⟩ := a
  obtain ⟨span', key', inner'⟩ := b
  simp only [outline, spanField, List.cons_append, List.nil_append, Datum.record.injEq,
    List.cons.injEq, Prod.mk.injEq, Datum.text.injEq, Span.outline_inj, true_and] at same
  obtain ⟨rfl, rfl, values⟩ := same
  obtain rfl : inner = inner' := value (outline_eq_of_optional values)
  rfl

/-- The body behind the last `else` is there in both records or in neither. -/
theorem eq_of_outlineElse {otherwise otherwise' : Option (List Node)}
    {rest rest' : List (String × Datum)}
    (each : ∀ x ∈ otherwise.getD [], ∀ y ∈ otherwise'.getD [], x.outline = y.outline → x = y)
    (same : outlineElse otherwise ++ kindField "IfExpr" :: rest =
      outlineElse otherwise' ++ kindField "IfExpr" :: rest') :
    otherwise = otherwise' ∧ rest = rest' := by
  cases otherwise <;> cases otherwise' <;>
    simp only [outlineElse, kindField, outlineAll_eq, List.nil_append, List.cons_append,
      List.cons.injEq, Prod.mk.injEq, Datum.list.injEq, true_and] at same
  case none.none => exact ⟨rfl, same⟩
  case some.some body body' =>
    obtain rfl : body = body' := eq_of_map_eq each same.1
    exact ⟨rfl, same.2⟩
  all_goals simp at same

/-! ### Whole trees -/

namespace Node

theorem sizeOf_lt_of_branch {part : Node} {branches : List Branch} {branch : Branch}
    (inside : branch ∈ branches) (direct : part ∈ branch.condition :: branch.body) :
    sizeOf part < sizeOf branches := by
  have smaller := List.sizeOf_lt_of_mem inside
  obtain ⟨span, condition, body⟩ := branch
  rw [Branch.mk.sizeOf_spec] at smaller
  rcases List.mem_cons.mp direct with rfl | member
  · omega
  · have within : sizeOf part < sizeOf body := List.sizeOf_lt_of_mem member
    omega

/-- The parts of a node are smaller than it is. -/
theorem sizeOf_lt_of_part {part node : Node} (direct : part ∈ node.parts) :
    sizeOf part < sizeOf node := by
  -- A part is a field of the node, or an element of a list that is one.
  cases node with
  | program span body | function span name params body | array span body =>
    have smaller : sizeOf part < sizeOf body := List.sizeOf_lt_of_mem direct
    simp only [program.sizeOf_spec, function.sizeOf_spec, array.sizeOf_spec]
    omega
  | call span callee arguments =>
    rcases List.mem_cons.mp direct with rfl | member
    · simp only [call.sizeOf_spec]
      omega
    · have smaller := List.sizeOf_lt_of_mem member
      simp only [call.sizeOf_spec]
      omega
  | choice span branches otherwise =>
    simp only [choice.sizeOf_spec]
    rcases List.mem_append.mp direct with member | member
    · obtain ⟨branch, inside, member⟩ := List.mem_flatMap.mp member
      have smaller := sizeOf_lt_of_branch inside member
      omega
    · cases otherwise with
      | none => simp at member
      | some body =>
        have smaller : sizeOf part < sizeOf body := List.sizeOf_lt_of_mem member
        simp only [Option.some.sizeOf_spec]
        omega
  | object span entries =>
    obtain ⟨⟨place, key, value⟩, inside, rfl⟩ := List.mem_map.mp direct
    have smaller := List.sizeOf_lt_of_mem inside
    change sizeOf value < _
    simp only [Property.mk.sizeOf_spec, object.sizeOf_spec] at smaller ⊢
    omega
  | declare | lambda | ret =>
    obtain rfl := List.mem_singleton.mp direct
    simp only [declare.sizeOf_spec, lambda.sizeOf_spec, ret.sizeOf_spec]
    omega
  | assign | member | operation =>
    simp only [parts, List.mem_cons, List.not_mem_nil, or_false] at direct
    simp only [assign.sizeOf_spec, member.sizeOf_spec, operation.sizeOf_spec]
    rcases direct with rfl | rfl <;> omega
  | _ => simp [parts] at direct

/-- What holds of a node when it holds of its parts holds of every node. -/
theorem parts_induction {P : Node → Prop} (step : ∀ node, (∀ part ∈ node.parts, P part) → P node)
    (node : Node) : P node :=
  step node fun part direct =>
    have := sizeOf_lt_of_part direct
    parts_induction step part
termination_by sizeOf node

/-- No node of an unknown kind occurs in it. -/
def Known (node : Node) : Prop := node.Every fun inner => inner.tag? ≠ some .unknown

/-- Nodes with the same outline are of the same kind and have the same fields. So they are the same
if their parts can be told apart. -/
theorem eq_of_outline_of_parts {a b : Node} (known : a.tag? ≠ some .unknown)
    (each : ∀ x ∈ a.parts, ∀ y ∈ b.parts, x.outline = y.outline → x = y)
    (same : a.outline = b.outline) : a = b := by
  have tags := tag?_eq_of_outline same
  -- The tags leave only one kind of node for the second tree.
  cases a with
  | missing => cases b with
    | missing => rfl
    | _ => cases tags
  | program span body => cases b with
    | program span' body' =>
      obtain ⟨bodies, rfl⟩ : body.map outline = body'.map outline ∧ span = span' := by
        simpa [outline, spanField, outlineAll_eq] using same
      obtain rfl : body = body' := eq_of_map_eq each bodies
      rfl
    | _ => cases tags
  | declare span name constant value => cases b with
    | declare span' name' constant' value' =>
      simp only [outline, spanField, List.cons_append, List.nil_append, Datum.record.injEq,
        List.cons.injEq, Prod.mk.injEq, Datum.bool.injEq, Datum.text.injEq, Span.outline_inj,
        true_and] at same
      obtain ⟨rfl, rfl, rfl, values⟩ := same
      obtain rfl : value = value' := each _ (.head _) _ (.head _) (outline_eq_of_optional values)
      rfl
    | _ => cases tags
  | function span name params body => cases b with
    | function span' name' params' body' =>
      obtain ⟨bodies, rfl, rfl, rfl⟩ : body.map outline = body'.map outline ∧ name = name' ∧
          params = params' ∧ span = span' := by
        simpa [outline, spanField, outlineAll_eq] using same
      obtain rfl : body = body' := eq_of_map_eq each bodies
      rfl
    | _ => cases tags
  | lambda span params body => cases b with
    | lambda span' params' body' =>
      obtain ⟨bodies, rfl, rfl⟩ : body.outline = body'.outline ∧ params = params' ∧
          span = span' := by simpa [outline, spanField] using same
      obtain rfl : body = body' := each _ (.head _) _ (.head _) bodies
      rfl
    | _ => cases tags
  | choice span branches otherwise => cases b with
    | choice span' branches' otherwise' =>
      simp only [outline, outlineBranches_eq, spanField, List.cons_append, List.nil_append,
        Datum.record.injEq, List.cons.injEq, Prod.mk.injEq, Datum.list.injEq, true_and] at same
      -- Whether there is a last body is seen at the key that comes behind the branches.
      obtain ⟨heads, rest⟩ := same
      obtain ⟨rfl, ends⟩ := eq_of_outlineElse (fun x inside y inside' =>
        each x (List.mem_append_right _ inside) y (List.mem_append_right _ inside')) rest
      obtain rfl : span = span' := by simpa using ends
      have conditions : ∀ x ∈ branches, ∀ y ∈ branches', x.outline = y.outline → x = y := by
        intro x inside y inside'
        apply Branch.eq_of_outline
        intro part direct part' direct'
        exact each part (List.mem_append_left _ (List.mem_flatMap.mpr ⟨x, inside, direct⟩)) part'
          (List.mem_append_left _ (List.mem_flatMap.mpr ⟨y, inside', direct'⟩))
      obtain rfl : branches = branches' := eq_of_map_eq conditions heads
      rfl
    | _ => cases tags
  | ret span value => cases b with
    | ret span' value' =>
      obtain ⟨rfl, values⟩ : span = span' ∧ value.outline = value'.outline := by
        simpa [outline, spanField] using same
      obtain rfl : value = value' := each _ (.head _) _ (.head _) values
      rfl
    | _ => cases tags
  | del span name => cases b with
    | del span' name' =>
      obtain ⟨rfl, rfl⟩ : name = name' ∧ span = span' := by simpa [outline, spanField] using same
      rfl
    | _ => cases tags
  | raise span message => cases b with
    | raise span' message' =>
      obtain ⟨rfl, rfl⟩ : message = message' ∧ span = span' := by
        simpa [outline, spanField] using same
      rfl
    | _ => cases tags
  | assign span target value => cases b with
    | assign span' target' value' =>
      obtain ⟨rfl, targets, values⟩ : span = span' ∧ target.outline = target'.outline ∧
          value.outline = value'.outline := by simpa [outline, spanField] using same
      obtain rfl : target = target' := each _ (.head _) _ (.head _) targets
      obtain rfl : value = value' := each _ (.tail _ (.head _)) _ (.tail _ (.head _)) values
      rfl
    | _ => cases tags
  | member span object key computed => cases b with
    | member span' object' key' computed' =>
      obtain ⟨rfl, objects, keys, rfl⟩ : computed = computed' ∧ object.outline = object'.outline ∧
          key.outline = key'.outline ∧ span = span' := by simpa [outline, spanField] using same
      obtain rfl : object = object' := each _ (.head _) _ (.head _) objects
      obtain rfl : key = key' := each _ (.tail _ (.head _)) _ (.tail _ (.head _)) keys
      rfl
    | _ => cases tags
  | call span callee arguments => cases b with
    | call span' callee' arguments' =>
      obtain ⟨inputs, callees, rfl⟩ : arguments.map outline = arguments'.map outline ∧
          callee.outline = callee'.outline ∧ span = span' := by
        simpa [outline, spanField, outlineAll_eq] using same
      obtain rfl : callee = callee' := each _ (.head _) _ (.head _) callees
      obtain rfl : arguments = arguments' :=
        eq_of_map_eq (fun x inside y inside' => each x (.tail _ inside) y (.tail _ inside')) inputs
      rfl
    | _ => cases tags
  | operation span family operator left right => cases b with
    | operation span' family' operator' left' right' =>
      obtain rfl : family = family' := by simpa [tag?] using tags
      obtain ⟨lefts, rfl, rights, rfl⟩ : left.outline = left'.outline ∧ operator = operator' ∧
          right.outline = right'.outline ∧ span = span' := by
        simpa [outline, spanField] using same
      obtain rfl : left = left' := each _ (.head _) _ (.head _) lefts
      obtain rfl : right = right' := each _ (.tail _ (.head _)) _ (.tail _ (.head _)) rights
      rfl
    | _ => cases tags
  | name span name => cases b with
    | name span' name' =>
      obtain ⟨rfl, rfl⟩ : name = name' ∧ span = span' := by simpa [outline, spanField] using same
      rfl
    | _ => cases tags
  | number span value width => cases b with
    | number span' value' width' =>
      obtain ⟨rfl, rfl, rfl⟩ : width = width' ∧ span = span' ∧ value = value' := by
        simpa [outline, spanField] using same
      rfl
    | _ => cases tags
  | text span value length => cases b with
    | text span' value' length' =>
      obtain ⟨rfl, rfl, rfl⟩ : length = length' ∧ span = span' ∧ value = value' := by
        simpa [outline, spanField] using same
      rfl
    | _ => cases tags
  | array span elements => cases b with
    | array span' elements' =>
      obtain ⟨inside, rfl⟩ : elements.map outline = elements'.map outline ∧ span = span' := by
        simpa [outline, spanField, outlineAll_eq] using same
      obtain rfl : elements = elements' := eq_of_map_eq each inside
      rfl
    | _ => cases tags
  | object span entries => cases b with
    | object span' entries' =>
      obtain ⟨inside, rfl⟩ : entries.map Property.outline = entries'.map Property.outline ∧
          span = span' := by simpa [outline, spanField, outlineProperties_eq] using same
      have values : ∀ x ∈ entries, ∀ y ∈ entries', x.outline = y.outline → x = y :=
        fun x direct y direct' => Property.eq_of_outline
          (each _ (List.mem_map_of_mem direct) _ (List.mem_map_of_mem direct'))
      obtain rfl : entries = entries' := eq_of_map_eq values inside
      rfl
    | _ => cases tags
  | null span => cases b with
    | null span' =>
      obtain rfl : span = span' := by simpa [outline, spanField] using same
      rfl
    | _ => cases tags
  | unknown span => exact absurd rfl known

theorem outline_injective {a b : Node} (known : a.Known) (known' : b.Known)
    (same : a.outline = b.outline) : a = b := by
  induction a using parts_induction generalizing b with
  | step a ih =>
    obtain ⟨whole, parts⟩ := every_iff.mp known
    obtain ⟨-, parts'⟩ := every_iff.mp known'
    exact eq_of_outline_of_parts whole
      (fun x inside y inside' => ih x inside (parts x inside) (parts' y inside')) same

/-- A tree of known nodes is determined by its outline, down to the places, to what is missing and
to operators that are no kind of the language. -/
theorem outline_eq_iff {a b : Node} (known : a.Known) (known' : b.Known) :
    a.outline = b.outline ↔ a = b :=
  ⟨outline_injective known known', congrArg outline⟩

/-- An operator that is just a number, in front of an `else` without statements or of none. -/
def guardedOperation (otherwise : Option (List Node)) : Node :=
  .operation .zero .logical (.unknown (-7)) .missing (.choice .zero [] otherwise)

theorem guardedOperation_told_apart :
    (guardedOperation none).outline ≠ (guardedOperation (some [])).outline := by
  have known {otherwise : Option (List Node)} (empty : otherwise.getD [] = []) :
      (guardedOperation otherwise).Known := by
    have missing : Known .missing := every_iff.mpr ⟨by simp [tag?], by simp [parts]⟩
    have inner : Known (.choice .zero [] otherwise) :=
      every_iff.mpr ⟨by simp [tag?], by simp [parts, empty]⟩
    exact every_iff.mpr ⟨by simp [guardedOperation, tag?], by
      simpa [guardedOperation, parts] using ⟨missing, inner⟩⟩
  intro same
  have equal := (outline_eq_iff (known rfl) (known rfl)).mp same
  simp [guardedOperation] at equal

end Node

end Tide
